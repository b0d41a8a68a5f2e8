import Warp.Crdt.Hlc

/-! # Multi-value registers

A timestamp dominates a smaller one of another node. A merge takes the values of the other register
that nothing held dominates, then drops what an earlier value dominates. Two registers that merge
each other agree exactly if no value that only one of them has is dominated, or has its timestamp
taken, by the other (`merges_agree_iff`).
-/

namespace Warp.Crdt

open List

/-- Values with their timestamps. -/
structure MVRegister (T : Type*) where
  values : List (T × HLC)

namespace MVRegister

variable {T : Type*}

def new : MVRegister T := ⟨[]⟩

/-- Set a new value at the next tick of the clock, which reads physical time `now`. -/
def set (register : MVRegister T) (value : T) (clock : HLC) (now : ℕ) : MVRegister T × HLC :=
  let timestamp := clock.tick now
  (⟨register.values.filter (fun entry => entry.2 ≥ timestamp) ++ [(value, timestamp)]⟩, timestamp)

def dominates (entry other : T × HLC) : Bool :=
  entry.2 > other.2 ∧ entry.2.nodeId ≠ other.2.nodeId

/-- A value of the other register is added unless it is dominated or its timestamp is there. -/
def combine (values : List (T × HLC)) (entry : T × HLC) : List (T × HLC) :=
  if !values.any (dominates · entry) && !values.any (·.2 = entry.2) then values ++ [entry]
  else values

def keep (values : List (T × HLC)) (entry : T × HLC) : List (T × HLC) :=
  if values.any (dominates · entry) then values else values ++ [entry]

/-- Merge with another register. The clock receives every timestamp and reads physical time
`now i` at the `i`-th. -/
def merge (register other : MVRegister T) (clock : HLC) (now : ℕ → ℕ) : MVRegister T × HLC :=
  (⟨(other.values.foldl combine register.values).foldl keep []⟩,
    other.values.zipIdx.foldl (fun clock entry => clock.receive entry.1.2 (now entry.2)) clock)

/-- The earlier value leaves room for the later one. -/
def Admits (earlier later : T × HLC) : Prop :=
  dominates earlier later = false ∧ earlier.2 ≠ later.2
  deriving Decidable

/-- No value is dominated by an earlier one or has its timestamp. -/
def Settled (register : MVRegister T) : Prop := register.values.Pairwise Admits

def admitted (values : List (T × HLC)) (entry : T × HLC) : Bool :=
  values.all fun earlier => Admits earlier entry

theorem combine_eq (values : List (T × HLC)) (entry : T × HLC) :
    combine values entry = if admitted values entry then values ++ [entry] else values := by
  have same : (!values.any (dominates · entry) && !values.any (·.2 = entry.2)) =
      admitted values entry := by
    rw [Bool.eq_iff_iff]
    simp only [Bool.and_eq_true, Bool.not_eq_true', any_eq_false, admitted, all_eq_true,
      decide_eq_true_eq, Bool.not_eq_true]
    exact forall₂_and.symm
  rw [combine, same]

/-- Values that leave room for each other are taken one by one from what was there at first. -/
theorem foldl_combine (values added : List (T × HLC)) (settled : added.Pairwise Admits) :
    added.foldl combine values = values ++ added.filter (admitted values) := by
  induction added generalizing values with
  | nil => simp
  | cons entry rest ih =>
    obtain ⟨first, others⟩ := pairwise_cons.mp settled
    rw [foldl_cons, combine_eq, ih _ others]
    by_cases taken : admitted values entry = true
    · rw [if_pos taken, filter_cons_of_pos taken, append_assoc]
      congr 2
      refine congrArg (entry :: ·) (filter_congr fun later member => ?_)
      simp [admitted, first later member]
    · rw [if_neg taken, filter_cons_of_neg taken]

theorem foldl_keep (kept values : List (T × HLC)) (settled : (kept ++ values).Pairwise Admits) :
    values.foldl keep kept = kept ++ values := by
  induction values generalizing kept with
  | nil => simp
  | cons entry rest ih =>
    have free : kept.any (dominates · entry) = false := by
      rw [any_eq_false]
      intro earlier member
      have room := (pairwise_append.mp settled).2.2 earlier member entry mem_cons_self
      simp [room.1]
    rw [foldl_cons, keep, free, if_neg Bool.false_ne_true, ih, append_assoc]
    · rfl
    · rwa [append_assoc]

variable {first second : MVRegister T}

section
variable (settled : first.Settled) (otherSettled : second.Settled)
include settled otherSettled

theorem pairwise_taken :
    (first.values ++ second.values.filter (admitted first.values)).Pairwise Admits := by
  refine pairwise_append.mpr ⟨settled, otherSettled.sublist filter_sublist, ?_⟩
  intro earlier member later taken
  exact of_decide_eq_true (all_eq_true.mp (mem_filter.mp taken).2 earlier member)

/-- A merge of settled registers keeps what it has and takes what it leaves room for. -/
theorem values_merge (clock : HLC) (now : ℕ → ℕ) :
    (first.merge second clock now).1.values =
      first.values ++ second.values.filter (admitted first.values) := by
  rw [merge, foldl_combine _ _ otherSettled]
  exact foldl_keep [] _ (pairwise_taken settled otherSettled)

theorem Settled.merge (clock : HLC) (now : ℕ → ℕ) : (first.merge second clock now).1.Settled := by
  rw [Settled, values_merge settled otherSettled]
  exact pairwise_taken settled otherSettled

theorem merge_again (clock again : HLC) (now later : ℕ → ℕ) :
    ((first.merge second clock now).1.merge second again later).1 =
      (first.merge second clock now).1 := by
  have nothing : second.values.filter (admitted (first.merge second clock now).1.values) = [] := by
    rw [filter_eq_nil_iff, values_merge settled otherSettled]
    intro entry member free
    have room := all_eq_true.mp free
    have taken : admitted first.values entry = true :=
      all_eq_true.mpr fun earlier held => room earlier (mem_append_left _ held)
    have itself := room entry (mem_append_right _ (mem_filter.mpr ⟨member, taken⟩))
    exact (of_decide_eq_true itself).2 rfl
  have same := values_merge (settled.merge otherSettled clock now) otherSettled again later
  rw [nothing, append_nil] at same
  exact congrArg MVRegister.mk same

end

/-- Registers that are only written when the clock is past the values they hold, as it is after
it has received their timestamps. -/
inductive Reachable : MVRegister T → Prop
  | new : Reachable new
  | set {register : MVRegister T} (value : T) (clock : HLC) (now : ℕ)
    (behind : ∀ entry ∈ register.values, entry.2 < clock.tick now) :
    Reachable register → Reachable (register.set value clock now).1
  | merge {first second : MVRegister T} (clock : HLC) (now : ℕ → ℕ) :
    Reachable first → Reachable second → Reachable (first.merge second clock now).1

theorem Reachable.settled {register : MVRegister T} (reachable : register.Reachable) :
    register.Settled := by
  induction reachable with
  | new => exact Pairwise.nil
  | @set register value clock now behind _ _ =>
    have replaced : register.values.filter (fun entry => entry.2 ≥ clock.tick now) = [] := by
      rw [filter_eq_nil_iff]
      intro entry member
      simpa using behind entry member
    simp [Settled, MVRegister.set, replaced]
  | merge clock now _ _ ih ih' => exact ih.merge ih' clock now

end MVRegister

open MVRegister

/-- **When two registers agree** after both have merged the other, and merging again changes
nothing: if and only if no value that only one of them has is dominated by a value of the other
or has its timestamp. -/
theorem merges_agree_iff {T : Type*} {first second : MVRegister T} (reachable : first.Reachable)
    (otherReachable : second.Reachable) (clock otherClock again : HLC)
    (now otherNow later : ℕ → ℕ) :
    ((∀ entry, entry ∈ (first.merge second clock now).1.values ↔
        entry ∈ (second.merge first otherClock otherNow).1.values) ∧
      ((first.merge second clock now).1.merge second again later).1 =
        (first.merge second clock now).1) ↔
      (∀ entry ∈ first.values, entry ∉ second.values →
        ∀ other ∈ second.values, MVRegister.Admits other entry) ∧
      ∀ entry ∈ second.values, entry ∉ first.values →
        ∀ other ∈ first.values, MVRegister.Admits other entry := by
  have settled := reachable.settled
  have otherSettled := otherReachable.settled
  rw [and_iff_left (merge_again settled otherSettled ..),
    values_merge settled otherSettled, values_merge otherSettled settled]
  simp only [mem_append, mem_filter, admitted, all_eq_true, decide_eq_true_eq]
  constructor
  · intro same
    refine ⟨fun entry member alone => ?_, fun entry member alone => ?_⟩
    · exact (((same entry).mp (Or.inl member)).resolve_left alone).2
    · exact (((same entry).mpr (Or.inl member)).resolve_left alone).2
  · rintro ⟨left, right⟩ entry
    by_cases inFirst : entry ∈ first.values <;> by_cases inSecond : entry ∈ second.values
    · simp [inFirst, inSecond]
    · simpa [inFirst, inSecond] using left entry inFirst inSecond
    · simpa [inFirst, inSecond] using right entry inSecond inFirst
    · simp [inFirst, inSecond]

/-- One node overwrites a value that another one has taken over. -/
theorem merges_agree_overwritten :
    let written := ((new : MVRegister ℕ).set 1 ⟨0, 0, 1⟩ 5).1
    let first := (written.set 2 ⟨5, 0, 1⟩ 7).1
    let second := ((new : MVRegister ℕ).merge written ⟨0, 0, 2⟩ id).1
    first.values = [(2, ⟨7, 0, 1⟩)] ∧ second.values = [(1, ⟨5, 0, 1⟩)] ∧
      (∀ entry, entry ∈ (first.merge second ⟨7, 0, 1⟩ id).1.values ↔
        entry ∈ (second.merge first ⟨6, 0, 2⟩ id).1.values) ∧
      ((first.merge second ⟨7, 0, 1⟩ id).1.merge second ⟨7, 0, 1⟩ id).1 =
        (first.merge second ⟨7, 0, 1⟩ id).1 := by
  intro written first second
  have reached : written.Reachable := .set 1 ⟨0, 0, 1⟩ 5 (by simp [new]) .new
  have agrees := (merges_agree_iff (.set 2 ⟨5, 0, 1⟩ 7 (by decide) reached)
    (.merge ⟨0, 0, 2⟩ id .new reached) ⟨7, 0, 1⟩ ⟨6, 0, 2⟩ ⟨7, 0, 1⟩ id id id).mpr (by decide)
  exact ⟨by decide, by decide, agrees⟩

/-- The register with the smaller timestamp keeps its value next to the other one. -/
theorem merges_disagree :
    let first := ((new : MVRegister ℕ).set 1 ⟨0, 0, 1⟩ 5).1
    let second := ((new : MVRegister ℕ).set 2 ⟨0, 0, 2⟩ 6).1
    (first.merge second ⟨5, 0, 1⟩ id).1.values = [(1, ⟨5, 0, 1⟩), (2, ⟨6, 0, 2⟩)] ∧
      (second.merge first ⟨6, 0, 2⟩ id).1.values = [(2, ⟨6, 0, 2⟩)] := by
  decide

end Warp.Crdt
