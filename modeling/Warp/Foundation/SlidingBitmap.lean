import Mathlib.Data.Set.Insert

/-! # Sliding bitmaps

A bitmap records which positions at and below a top have been seen, as far back as it is
wide: the bit at a distance says whether the position that far below the top was. Moving the
top up shifts the bitmap (`Records.advance`) or, over more than its width, clears it
(`records_reset`), and marking a position sets its bit (`Records.mark`).
-/

namespace SlidingBitmap

open BitVec

variable {width : ℕ} {bitmap : BitVec width} {top : ℕ} {seen : Set ℕ} {distance : ℕ}

/-- Every bit says whether the position that far below the top was seen. -/
def Records (bitmap : BitVec width) (top : ℕ) (seen : Set ℕ) : Prop :=
  ∀ place < width, bitmap.getLsbD place = true ↔ ∃ position ∈ seen, position + place = top

theorem shifted_and_one_eq_one_iff (positive : 0 < width) (place : ℕ) :
    bitmap >>> place &&& BitVec.ofNat width 1 = BitVec.ofNat width 1 ↔
      bitmap.getLsbD place = true := by
  rw [and_one_eq_setWidth_ofBool_getLsbD, getLsbD_ushiftRight, Nat.add_zero]
  cases bitmap.getLsbD place with
  | false => simp [Nat.ne_of_gt positive]
  | true =>
    refine iff_of_true ?_ rfl
    apply eq_of_toNat_eq
    simp

theorem records_zero (top : ℕ) : Records (BitVec.ofNat width 0) top ∅ := by
  intro place _
  simp

theorem Records.getLsbD_iff (records : Records bitmap top seen) {place position : ℕ}
    (inside : place < width) (below : position + place = top) :
    bitmap.getLsbD place = true ↔ position ∈ seen := by
  rw [records place inside]
  constructor
  · rintro ⟨other, member, same⟩
    obtain rfl : other = position := by omega
    exact member
  · intro member
    exact ⟨position, member, below⟩

theorem Records.advance (records : Records bitmap top seen)
    (below : ∀ position ∈ seen, position ≤ top) (positive : 0 < distance) :
    Records (bitmap <<< distance ||| BitVec.ofNat width 1) (top + distance)
      (insert (top + distance) seen) := by
  intro place inside
  simp only [getLsbD_or, getLsbD_shiftLeft, getLsbD_one, inside,
    decide_true, Bool.true_and, Bool.or_eq_true, Bool.and_eq_true, Bool.not_eq_true',
    decide_eq_false_iff_not, decide_eq_true_eq, Nat.not_lt, Set.exists_mem_insert]
  constructor
  · rintro (⟨far, old⟩ | ⟨-, rfl⟩)
    · obtain ⟨position, member, same⟩ := (records _ (by omega)).mp old
      exact .inr ⟨position, member, by omega⟩
    · exact .inl (Nat.add_zero _)
  · rintro (same | ⟨position, member, same⟩)
    · exact .inr ⟨by omega, by omega⟩
    · have bounded := below position member
      exact .inl ⟨by omega, (records _ (by omega)).mpr ⟨position, member, by omega⟩⟩

theorem records_reset (below : ∀ position ∈ seen, position ≤ top) (far : width ≤ distance) :
    Records (BitVec.ofNat width 1) (top + distance) (insert (top + distance) seen) := by
  intro place inside
  simp only [getLsbD_one, Bool.and_eq_true, decide_eq_true_eq, Set.exists_mem_insert]
  constructor
  · rintro ⟨-, rfl⟩
    exact .inl (Nat.add_zero _)
  · rintro (same | ⟨position, member, same⟩)
    · exact ⟨by omega, by omega⟩
    · have bounded := below position member
      omega

theorem Records.mark (records : Records bitmap top seen) {place position : ℕ}
    (below : position + place = top) :
    Records (bitmap ||| BitVec.ofNat width 1 <<< place) top (insert position seen) := by
  intro other inside
  simp only [getLsbD_or, getLsbD_shiftLeft, getLsbD_one, inside,
    decide_true, Bool.true_and, Bool.or_eq_true, Bool.and_eq_true, Bool.not_eq_true',
    decide_eq_false_iff_not, decide_eq_true_eq, Nat.not_lt, Set.exists_mem_insert,
    records other inside]
  constructor
  · rintro (old | ⟨late, -, same⟩)
    · exact .inr old
    · exact .inl (by omega)
  · rintro (same | old)
    · exact .inr ⟨by omega, by omega, by omega⟩
    · exact .inl old

end SlidingBitmap
