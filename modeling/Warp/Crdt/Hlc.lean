import Mathlib.Algebra.Group.Nat.Defs
import Mathlib.Data.Prod.Lex

/-! # Hybrid logical clocks

A hybrid logical clock pairs the largest physical time it has seen with a logical counter that
saturates at the largest 32-bit value. Below saturation a tick lies strictly after the clock
(`HLC.time_lt_tick`), and a receive strictly after the clock and the received timestamp
(`HLC.time_lt_receive`). Physical clock readings are inputs.
-/

namespace Warp.Crdt

abbrev NodeId := ℕ

def u32Max : ℕ := 2 ^ 32 - 1

@[ext]
structure HLC where
  physical : ℕ
  logical : ℕ
  nodeId : NodeId
  deriving DecidableEq

namespace HLC

def saturatingSucc (counter : ℕ) : ℕ := min (counter + 1) u32Max

def new (nodeId : NodeId) (now : ℕ) : HLC where
  physical := now
  logical := 0
  nodeId := nodeId

/-- Generate the next timestamp for a local event. The result is both the new
clock and the timestamp returned. -/
def tick (clock : HLC) (now : ℕ) : HLC :=
  if now > clock.physical then { clock with physical := now, logical := 0 }
  else { clock with logical := saturatingSucc clock.logical }

/-- Update the clock after receiving a remote timestamp. -/
def receive (clock remote : HLC) (now : ℕ) : HLC :=
  if now > clock.physical ∧ now > remote.physical then
    { clock with physical := now, logical := 0 }
  else if clock.physical > remote.physical then
    { clock with logical := saturatingSucc clock.logical }
  else if remote.physical > clock.physical then
    { clock with physical := remote.physical, logical := saturatingSucc remote.logical }
  else { clock with logical := saturatingSucc (max clock.logical remote.logical) }

def send (clock : HLC) (now : ℕ) : HLC := clock.tick now

/-- The order of timestamps: physical time, then counter, then node. -/
def cmp (left right : HLC) : Ordering :=
  match compare left.physical right.physical with
  | .eq =>
    match compare left.logical right.logical with
    | .eq => compare left.nodeId right.nodeId
    | order => order
  | order => order

def time (stamp : HLC) : ℕ ×ₗ ℕ := toLex (stamp.physical, stamp.logical)

def key (stamp : HLC) : (ℕ ×ₗ ℕ) ×ₗ ℕ := toLex (stamp.time, stamp.nodeId)

theorem key_injective : Function.Injective key := by
  intro left right same
  have parts := Prod.mk.inj (toLex.injective same)
  have times := Prod.mk.inj (toLex.injective parts.1)
  exact HLC.ext times.1 times.2 parts.2

instance : LinearOrder HLC := LinearOrder.lift' key key_injective

variable {right left : HLC} (clock remote : HLC) (now : ℕ)

theorem time_lt_iff :
    left.time < right.time ↔ left.physical < right.physical ∨
      left.physical = right.physical ∧ left.logical < right.logical :=
  Prod.Lex.toLex_lt_toLex

theorem lt_iff :
    left < right ↔ left.time < right.time ∨ left.time = right.time ∧ left.nodeId < right.nodeId :=
  Prod.Lex.toLex_lt_toLex

theorem lt_of_time_lt (earlier : left.time < right.time) : left < right :=
  lt_iff.mpr (Or.inl earlier)

theorem time_le_of_le (ordered : left ≤ right) : left.time ≤ right.time := by
  rcases ordered.lt_or_eq with earlier | same
  · rcases lt_iff.mp earlier with strict | equal
    · exact strict.le
    · exact equal.1.le
  · rw [same]

theorem cmp_eq_lt_iff : left.cmp right = .lt ↔ left < right := by
  have times : left.time = right.time ↔
      left.physical = right.physical ∧ left.logical = right.logical := by
    unfold time
    rw [toLex_inj, Prod.mk.injEq]
  rw [lt_iff, time_lt_iff, times]
  unfold cmp
  rcases Nat.lt_trichotomy left.physical right.physical with before | same | later
  · simp [Nat.compare_eq_lt.mpr before, before]
  · rcases Nat.lt_trichotomy left.logical right.logical with before' | same' | later'
    · simp [Nat.compare_eq_lt.mpr before', same, before']
    · simp [same, same', Nat.compare_eq_lt]
    · simp only [Nat.compare_eq_eq.mpr same, Nat.compare_eq_gt.mpr later', reduceCtorEq, false_iff]
      omega
  · simp only [Nat.compare_eq_gt.mpr later, reduceCtorEq, false_iff]
    omega

theorem saturatingSucc_eq {counter : ℕ} (unsaturated : saturatingSucc counter ≠ u32Max) :
    saturatingSucc counter = counter + 1 := by
  unfold saturatingSucc at *
  omega

@[simp] theorem tick_nodeId (clock : HLC) (now : ℕ) : (clock.tick now).nodeId = clock.nodeId := by
  unfold tick
  split <;> rfl

@[simp] theorem receive_nodeId :
    (clock.receive remote now).nodeId = clock.nodeId := by
  unfold receive
  split
  · rfl
  · split
    · rfl
    · split <;> rfl

theorem time_lt_tick (clock : HLC) (now : ℕ) (unsaturated : (clock.tick now).logical ≠ u32Max) :
    clock.time < (clock.tick now).time := by
  rw [time_lt_iff]
  unfold tick at *
  by_cases advanced : now > clock.physical
  · rw [if_pos advanced]
    exact Or.inl advanced
  · rw [if_neg advanced] at unsaturated ⊢
    rw [saturatingSucc_eq unsaturated]
    exact Or.inr ⟨rfl, Nat.lt_succ_self _⟩

theorem time_lt_receive (unsaturated : (clock.receive remote now).logical ≠ u32Max) :
    clock.time < (clock.receive remote now).time ∧
      remote.time < (clock.receive remote now).time := by
  rw [time_lt_iff, time_lt_iff]
  unfold receive at *
  by_cases advanced : now > clock.physical ∧ now > remote.physical
  · rw [if_pos advanced]
    exact ⟨Or.inl advanced.1, Or.inl advanced.2⟩
  · rw [if_neg advanced] at unsaturated ⊢
    by_cases ahead : clock.physical > remote.physical
    · rw [if_pos ahead] at unsaturated ⊢
      rw [saturatingSucc_eq unsaturated]
      exact ⟨Or.inr ⟨rfl, Nat.lt_succ_self _⟩, Or.inl ahead⟩
    · rw [if_neg ahead] at unsaturated ⊢
      by_cases behind : remote.physical > clock.physical
      · rw [if_pos behind] at unsaturated ⊢
        rw [saturatingSucc_eq unsaturated]
        exact ⟨Or.inl behind, Or.inr ⟨rfl, Nat.lt_succ_self _⟩⟩
      · rw [if_neg behind] at unsaturated ⊢
        rw [saturatingSucc_eq unsaturated]
        dsimp only
        omega

end HLC

end Warp.Crdt
