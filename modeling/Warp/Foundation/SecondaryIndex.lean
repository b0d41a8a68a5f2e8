import Warp.Foundation.Table

/-! # Secondary indexes

Records are kept by key, and an index maps a mark that each record carries back to its key.
Adding a record under a new key keeps the two in step exactly if no record carries its mark
(`SecondaryIndex.Matches.insert_iff`).
-/

namespace SecondaryIndex

open Table

variable {Key Mark Value : Type*} [DecidableEq Key] [DecidableEq Mark]

/-- Every record is indexed by its mark, and the index holds nothing else. -/
structure Matches (mark : Value → Mark) (records : Table Key Value) (index : Table Mark Key) :
    Prop where
  indexed : ∀ {key value}, records.lookup key = some value → index.lookup (mark value) = some key
  backed : ∀ {entry key}, index.lookup entry = some key →
    ∃ value, records.lookup key = some value ∧ mark value = entry

variable {mark : Value → Mark} {records : Table Key Value} {index : Table Mark Key}

variable (agree : Matches mark records index)
include agree

theorem Matches.eq_of_mark_eq {first second : Key} {left right : Value}
    (atFirst : records.lookup first = some left) (atSecond : records.lookup second = some right)
    (same : mark left = mark right) :
    first = second := by
  have found := agree.indexed atFirst
  rw [same, agree.indexed atSecond] at found
  exact (Option.some.inj found).symm

theorem Matches.insert_iff {key : Key} (fresh : records.lookup key = none) (value : Value) :
    Matches mark (records.insert key value) (index.insert (mark value) key) ↔
      ∀ other ∈ records.values, mark other ≠ mark value := by
  have elsewhere {otherKey : Key} {other : Value} (found : records.lookup otherKey = some other) :
      otherKey ≠ key := by
    rintro rfl
    exact Option.some_ne_none other (found.symm.trans fresh)
  constructor
  · intro after other member same
    obtain ⟨otherKey, found⟩ := mem_values_iff.mp member
    have atOther : (records.insert key value).lookup otherKey = some other := by
      rw [lookup_insert_eq, if_neg (elsewhere found), found]
    exact elsewhere found (after.eq_of_mark_eq atOther (AList.lookup_insert records) same)
  · intro unmarked
    constructor
    · intro otherKey other found
      rcases eq_or_lookup_of_insert found with ⟨rfl, rfl⟩ | ⟨-, found⟩
      · exact AList.lookup_insert index
      · have different := unmarked other (mem_values_iff.mpr ⟨otherKey, found⟩)
        rw [AList.lookup_insert_ne different, agree.indexed found]
    · intro entry otherKey found
      rcases eq_or_lookup_of_insert found with ⟨rfl, rfl⟩ | ⟨-, found⟩
      · exact ⟨value, AList.lookup_insert records, rfl⟩
      · obtain ⟨other, stored, marked⟩ := agree.backed found
        refine ⟨other, ?_, marked⟩
        rw [lookup_insert_eq, if_neg (elsewhere stored), stored]

theorem Matches.erase {key : Key} {value : Value} (found : records.lookup key = some value) :
    Matches mark (records.erase key) (index.erase (mark value)) := by
  constructor
  · intro otherKey other stored
    rw [lookup_erase_eq] at stored ⊢
    split at stored
    · exact absurd stored nofun
    · next elsewhere =>
      have different : mark other ≠ mark value := fun same =>
        elsewhere (agree.eq_of_mark_eq stored found same)
      rw [if_neg different, agree.indexed stored]
  · intro entry otherKey stored
    rw [lookup_erase_eq] at stored
    split at stored
    · exact absurd stored nofun
    · next elsewhere =>
      obtain ⟨other, present, rfl⟩ := agree.backed stored
      have different : otherKey ≠ key := by
        rintro rfl
        exact elsewhere (congrArg mark (Option.some.inj (present.symm.trans found)))
      refine ⟨other, ?_, rfl⟩
      rw [lookup_erase_eq, if_neg different, present]

end SecondaryIndex
