import Mathlib.Data.List.Nodup
import Mathlib.Order.Lattice

/-! # Ordered indexes

Values kept in the order of a key that each of them carries, one value for a key. Inserting
replaces the value of the same key (`OrderedIndex.mem_insert`), and the floor of a query is
the value with the largest key up to it (`OrderedIndex.floor_eq_some_iff`).
-/

/-- Values in increasing order of their keys. -/
structure OrderedIndex {Key Value : Type*} [LinearOrder Key] (key : Value → Key) where
  values : List Value
  sorted : values.Pairwise fun earlier later => key earlier < key later

namespace OrderedIndex

open List

variable {Key Value : Type*} [LinearOrder Key] {key : Value → Key} {value : Value} {query : Key}
  {index : OrderedIndex key}

def empty : OrderedIndex key := ⟨[], .nil⟩

section
variable (index : OrderedIndex key)

/-- The values with keys below a bound. -/
def below (bound : Key) : List Value :=
  index.values.filter (key · < bound)

/-- The value with the largest key up to a query. -/
def floor (query : Key) : Option Value :=
  (index.values.filter (key · ≤ query)).getLast?

/-- The value with a key. -/
def find (query : Key) : Option Value :=
  index.values.find? (key · = query)

/-- Without the value with a key. -/
def erase (query : Key) : OrderedIndex key where
  values := index.values.filter (key · ≠ query)
  sorted := index.sorted.filter _

/-- The values that a test keeps. -/
def retain (keep : Value → Bool) : OrderedIndex key where
  values := index.values.filter keep
  sorted := index.sorted.filter _

/-- With a value, in place of the one with the same key. -/
def insert (value : Value) : OrderedIndex key where
  values := index.below (key value) ++ value :: index.values.filter (key value < key ·)
  sorted := by
    refine List.pairwise_append.mpr ⟨index.sorted.filter _, ?_, ?_⟩
    · refine List.pairwise_cons.mpr ⟨?_, index.sorted.filter _⟩
      intro later member
      exact of_decide_eq_true (List.mem_filter.mp member).2
    · intro earlier early later late
      have before : key earlier < key value := of_decide_eq_true (List.mem_filter.mp early).2
      rcases List.mem_cons.mp late with rfl | late
      · exact before
      · exact lt_trans before (of_decide_eq_true (List.mem_filter.mp late).2)

/-- Every value replaced by one with the same key. -/
def map (change : Value → Value) (same : ∀ value, key (change value) = key value) :
    OrderedIndex key where
  values := index.values.map change
  sorted := by
    refine List.pairwise_map.mpr (index.sorted.imp ?_)
    intro earlier later before
    rwa [same, same]

end

@[simp] theorem values_empty : (empty : OrderedIndex key).values = [] := rfl

section
variable {index : OrderedIndex key} {inserted : Value}

@[simp] theorem mem_below {bound : Key} :
    value ∈ index.below bound ↔ value ∈ index.values ∧ key value < bound := by
  simp [below]

@[simp] theorem mem_erase :
    value ∈ (index.erase query).values ↔ value ∈ index.values ∧ key value ≠ query := by
  simp [erase]

@[simp] theorem mem_retain {keep : Value → Bool} :
    value ∈ (index.retain keep).values ↔ value ∈ index.values ∧ keep value = true :=
  mem_filter

theorem eq_of_key_eq {first second : Value} (left : first ∈ index.values)
    (right : second ∈ index.values) (same : key first = key second) : first = second := by
  have distinct : (index.values.map key).Nodup :=
    pairwise_map.mpr (index.sorted.imp ne_of_lt)
  exact inj_on_of_nodup_map distinct left right same

theorem mem_insert :
    value ∈ (index.insert inserted).values ↔
      value = inserted ∨ value ∈ index.values ∧ key value ≠ key inserted := by
  simp only [insert, mem_append, mem_below, mem_cons, mem_filter,
    decide_eq_true_eq, ne_iff_lt_or_gt]
  tauto

theorem values_insert_of_forall_lt (largest : ∀ value ∈ index.values, key value < key inserted) :
    (index.insert inserted).values = index.values ++ [inserted] := by
  have front : index.below (key inserted) = index.values :=
    filter_eq_self.mpr fun value member => decide_eq_true (largest value member)
  have back : index.values.filter (key inserted < key ·) = [] :=
    filter_eq_nil_iff.mpr fun value member above =>
      lt_asymm (largest value member) (of_decide_eq_true above)
  change index.below (key inserted) ++ inserted :: _ = _
  rw [front, back]

end

theorem values_insert_of_embedding {Other OtherKey : Type*} [LinearOrder OtherKey]
    {otherKey : Other → OtherKey} (embed : Value → Other)
    (ordered : ∀ first second, otherKey (embed first) < otherKey (embed second) ↔
      key first < key second) {other : OrderedIndex otherKey}
    (same : other.values = index.values.map embed) (value : Value) :
    (other.insert (embed value)).values = (index.insert value).values.map embed := by
  change other.values.filter _ ++ embed value :: other.values.filter _ =
    (index.values.filter _ ++ value :: index.values.filter _).map embed
  rw [same, filter_map, filter_map, map_append, map_cons]
  simp only [Function.comp_def, ordered]

theorem find_eq_none_iff :
    index.find query = none ↔ ∀ value ∈ index.values, key value ≠ query := by
  simp [find]

/-- The last value of an ordered list has the largest key. -/
private theorem getLast?_eq_some_iff_of_pairwise {values : List Value}
    (sorted : values.Pairwise fun earlier later => key earlier < key later) :
    values.getLast? = some value ↔ value ∈ values ∧ ∀ other ∈ values, key other ≤ key value := by
  rcases eq_nil_or_concat values with rfl | ⟨front, last, rfl⟩
  · simp
  rw [concat_eq_append] at sorted ⊢
  have early := (pairwise_append.mp sorted).2.2
  rw [getLast?_concat, Option.some.injEq]
  constructor
  · rintro rfl
    refine ⟨by simp, fun other member => ?_⟩
    rcases mem_append.mp member with member | member
    · exact (early other member last (by simp)).le
    · rw [mem_singleton.mp member]
  · rintro ⟨member, largest⟩
    rcases mem_append.mp member with member | member
    · exact absurd (early value member last (by simp)) (largest last (by simp)).not_gt
    · exact (mem_singleton.mp member).symm

theorem floor_eq_some_iff :
    index.floor query = some value ↔ (value ∈ index.values ∧ key value ≤ query) ∧
      ∀ other ∈ index.values, key other ≤ query → key other ≤ key value := by
  rw [floor, getLast?_eq_some_iff_of_pairwise (index.sorted.filter _)]
  simp

theorem floor_eq_none_iff :
    index.floor query = none ↔ ∀ value ∈ index.values, query < key value := by
  simp [floor]

theorem floor_map (index : OrderedIndex key) (change : Value → Value)
    (same : ∀ value, key (change value) = key value) (query : Key) :
    (index.map change same).floor query = (index.floor query).map change := by
  simp only [floor, map, filter_map, getLast?_map, Function.comp_def, same]

end OrderedIndex
