import Mathlib.Algebra.Group.Nat.Defs
import Warp.Foundation.Outcome

/-! # Machine arithmetic

An operation on machine words whose result does not fit wraps around, or panics when
the program was built with overflow checks (`Machine.fit`). Where the result fits, both
builds compute it (`Machine.fit_of_lt`).
-/

namespace Machine

variable {Failure : Type*} (overflowChecks : Bool)

/-- The word that holds a result, at a width. -/
def fit (width value : ℕ) : Outcome Failure ℕ :=
  if value < 2 ^ width then .ok value
  else if overflowChecks then .panic
  else .ok (value % 2 ^ width)

/-- The product of two 64-bit words. -/
def multiply (left right : ℕ) : Outcome Failure ℕ := fit overflowChecks 64 (left * right)

/-- A power of a 64-bit word. -/
def power (base exponent : ℕ) : Outcome Failure ℕ := fit overflowChecks 64 (base ^ exponent)

/-- A word shifted left. An amount of at least the width is taken modulo the width. -/
def shiftLeft {width : ℕ} (word : BitVec width) (amount : ℕ) : Outcome Failure (BitVec width) :=
  if amount < width then .ok (word <<< amount)
  else if overflowChecks then .panic
  else .ok (word <<< (amount % width))

/-- A quotient rounded up. -/
def divCeil (left right : ℕ) : Outcome Failure ℕ :=
  if right = 0 then .panic else .ok ((left + right - 1) / right)

variable {overflowChecks}

theorem fit_of_lt {width value : ℕ} (fits : value < 2 ^ width) :
    (fit overflowChecks width value : Outcome Failure ℕ) = .ok value :=
  if_pos fits

theorem multiply_of_lt {left right : ℕ} (fits : left * right < 2 ^ 64) :
    (multiply overflowChecks left right : Outcome Failure ℕ) = .ok (left * right) :=
  fit_of_lt fits

theorem multiply_overflow {left right : ℕ} (large : 2 ^ 64 ≤ left * right) :
    (multiply true left right : Outcome Failure ℕ) = .panic := by
  rw [multiply, fit, if_neg (Nat.not_lt.mpr large), if_pos rfl]

/-- Testing a word against a mask of one bit reads that bit. -/
theorem and_mask_bne_zero {mask : UInt32} {place : ℕ}
    (single : mask.toBitVec = BitVec.twoPow 32 place) (inside : place < 32) (bits : UInt32) :
    (bits &&& mask != 0) = bits.toBitVec.getLsbD place := by
  have nonzero : BitVec.twoPow 32 place ≠ 0#32 := by
    intro zero
    have bit := congrArg (BitVec.getLsbD · place) zero
    simp [inside] at bit
  rw [Bool.eq_iff_iff, bne_iff_ne, ne_eq, ← UInt32.toBitVec_inj, UInt32.toBitVec_and, single,
    BitVec.and_twoPow]
  cases bits.toBitVec.getLsbD place with
  | false => simp
  | true => simpa using nonzero

variable (Failure) in
theorem exists_fit_eq (width value : ℕ) :
    ∃ word, (fit false width value : Outcome Failure ℕ) = .ok word := by
  unfold fit
  split
  · exact ⟨_, rfl⟩
  · exact ⟨_, rfl⟩

variable (Failure) in
theorem exists_multiply_eq (left right : ℕ) :
    ∃ product, (multiply false left right : Outcome Failure ℕ) = .ok product :=
  exists_fit_eq Failure 64 (left * right)

end Machine
