import Warp.Crdt.Counter
import Warp.Crdt.LWWRegister
import Warp.Crdt.ORSet

/-! # Merging several replicas

Replicas are merged into a base one after another. Wherever the same states are merged, in any order
and any number of times, counters and sets come to the same value, and registers do if their
timestamps tell them apart (`replicas_converge`).
-/

namespace Warp.Crdt

open List

variable {State T : Type*} [DecidableEq T]

def MergeStats.combine (stats other : MergeStats) : MergeStats where
  elementsAdded := stats.elementsAdded + other.elementsAdded
  elementsRemoved := stats.elementsRemoved + other.elementsRemoved
  elementsUpdated := stats.elementsUpdated + other.elementsUpdated
  conflictsResolved := stats.conflictsResolved + other.conflictsResolved

def mergeAll (mergeFrom : State → State → State × MergeStats) (base : State)
    (others : List State) : State × MergeStats :=
  others.foldl (fun (merged, total) other =>
    let (next, stats) := mergeFrom merged other
    (next, total.combine stats)) (base, {})

def PNCounter.mergeFrom (counter other : PNCounter) : PNCounter × MergeStats :=
  let merged := counter.merge other
  (merged, { elementsUpdated := (asI64 (merged.value - counter.value)).natAbs })

def ORSet.len (set : ORSet T) : ℕ :=
  set.elements.entries.countP fun entry => !decide (entry.2 = ∅)

def ORSet.mergeFrom (set other : ORSet T) : ORSet T × MergeStats :=
  let merged := set.merge other
  (merged, { elementsAdded := merged.len - set.len })

/-- Two bases and what is merged into them are the same states, in any order and number. -/
def SameStates (first second : State × List State) : Prop :=
  ∀ state, state ∈ first.1 :: first.2 ↔ state ∈ second.1 :: second.2

theorem GCounter.value_congr {counter other : GCounter}
    (counts : counter.nodeValue = other.nodeValue) : counter.value = other.value := by
  have covers : ∀ node ∉ counter.counts.keys.toFinset, counter.nodeValue node = 0 := by
    intro node missing
    rw [nodeValue, AList.lookup_eq_none.mpr fun present => missing (mem_toFinset.mpr present)]
    rfl
  rw [value_eq_sum counter _ covers, value_eq_sum other _ (counts ▸ covers), counts]

section SameStates
variable (mergeFrom : State → State → State × MergeStats)

theorem fst_mergeAll (base : State) (others : List State) :
    (mergeAll mergeFrom base others).1 =
      Run.after (fun merged other => (mergeFrom merged other).1) base others :=
  (foldl_hom Prod.fst fun _ _ => rfl).symm

variable {first second : State × List State} (same : SameStates first second)
include same

theorem SameStates.view_eq {View : Type*} [SemilatticeSup View] (view : State → View)
    (joins : ∀ state other, view (mergeFrom state other).1 = view state ⊔ view other) :
    view (mergeAll mergeFrom first.1 first.2).1 =
      view (mergeAll mergeFrom second.1 second.2).1 := by
  refine eq_of_forall_ge_iff fun bound => ?_
  rw [fst_mergeAll, fst_mergeAll, Run.view_after_le_iff view joins, Run.view_after_le_iff view joins]
  simp only [same _]

/-- A merge that keeps one of both sides, where a key tells the states apart. -/
theorem SameStates.eq_of_key {Key : Type*} [SemilatticeSup Key] (key : State → Key)
    (joins : ∀ state other, key (mergeFrom state other).1 = key state ⊔ key other)
    (either : ∀ state other,
      (mergeFrom state other).1 = state ∨ (mergeFrom state other).1 = other)
    (apart : ∀ one ∈ first.1 :: first.2, ∀ other ∈ first.1 :: first.2,
      key one = key other → one = other) :
    (mergeAll mergeFrom first.1 first.2).1 = (mergeAll mergeFrom second.1 second.2).1 := by
  have keys := same.view_eq mergeFrom key joins
  rw [fst_mergeAll, fst_mergeAll] at *
  exact apart _ (Run.after_mem either ..) _ ((same _).mpr (Run.after_mem either ..)) keys

end SameStates

/-- **Replicas that merge the same states converge**, in whatever order and however often they
merge them: counters to one value, sets to the same elements, and registers to one register if
different ones carry different timestamps. -/
theorem replicas_converge :
    (∀ first second, SameStates first second →
      (mergeAll PNCounter.mergeFrom first.1 first.2).1.value =
        (mergeAll PNCounter.mergeFrom second.1 second.2).1.value) ∧
    (∀ first second, SameStates first second → ∀ element : T,
      (mergeAll ORSet.mergeFrom first.1 first.2).1.contains element =
        (mergeAll ORSet.mergeFrom second.1 second.2).1.contains element) ∧
    ∀ first second : LWWRegister T × List (LWWRegister T), SameStates first second →
      (∀ one ∈ first.1 :: first.2, ∀ other ∈ first.1 :: first.2,
        one.timestamp = other.timestamp → one = other) →
      (mergeAll LWWRegister.mergeFrom first.1 first.2).1 =
        (mergeAll LWWRegister.mergeFrom second.1 second.2).1 := by
  refine ⟨fun first second same => ?_, fun first second same element => ?_,
    fun first second same apart => same.eq_of_key _ LWWRegister.timestamp ?_ ?_ apart⟩
  · have positive := same.view_eq PNCounter.mergeFrom (fun counter => counter.positive.nodeValue)
      fun counter other => funext fun node => GCounter.nodeValue_merge ..
    have negative := same.view_eq PNCounter.mergeFrom (fun counter => counter.negative.nodeValue)
      fun counter other => funext fun node => GCounter.nodeValue_merge ..
    rw [PNCounter.value, PNCounter.value, GCounter.value_congr positive,
      GCounter.value_congr negative]
  · have dots := same.view_eq ORSet.mergeFrom (fun set => set.dots element)
      fun set other => ORSet.dots_merge ..
    rw [Bool.eq_iff_iff, ORSet.contains_iff, ORSet.contains_iff, dots]
  · intro register other
    unfold LWWRegister.mergeFrom
    split_ifs with later
    · exact (sup_eq_right.mpr later.le).symm
    · exact (sup_eq_left.mpr (not_lt.mp later)).symm
  · intro register other
    unfold LWWRegister.mergeFrom
    split_ifs
    · exact .inr rfl
    · exact .inl rfl

/-- A counter that is incremented and one that is decremented, which is merged twice. -/
theorem replicas_converge_twice :
    (mergeAll PNCounter.mergeFrom (.increment (.new 1)) [.decrement (.new 2)]).1.value =
      (mergeAll PNCounter.mergeFrom (.decrement (.new 2))
        [.increment (.new 1), .decrement (.new 2)]).1.value := by
  refine (replicas_converge (T := ℕ)).1 (_, _) (_, _) fun counter => ?_
  simp only [mem_cons, not_mem_nil, or_false]
  tauto

end Warp.Crdt
