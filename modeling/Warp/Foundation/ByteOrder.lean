import Mathlib.Data.List.Lex
import Warp.Foundation.Bytes

/-! # The order of big-endian bytes

Byte strings are compared byte by byte from the front. Big-endian bytes of one width are in the
order of their numbers (`Bytes.rank_beBytes_lt_iff`).
-/

namespace Bytes

open List

/-- The values of the bytes, by which byte strings are compared. -/
def rank (bytes : Bytes) : List ℕ := bytes.map UInt8.toNat

theorem concat_lt_concat_iff {first second : List ℕ} (same : first.length = second.length)
    (left right : ℕ) :
    first ++ [left] < second ++ [right] ↔ first < second ∨ first = second ∧ left < right := by
  induction first generalizing second with
  | nil =>
    obtain rfl := eq_nil_of_length_eq_zero same.symm
    simp [cons_lt_cons_iff]
  | cons head rest ih =>
    cases second with
    | nil => cases same
    | cons other others =>
      rw [cons_append, cons_append, cons_lt_cons_iff, cons_lt_cons_iff,
        ih (Nat.succ.inj same), List.cons.injEq]
      tauto

variable (width value : ℕ)

theorem rank_beBytes_succ :
    rank (beBytes (width + 1) value) = rank (beBytes width (value / 256)) ++ [value % 256] := by
  unfold beBytes rank
  rw [leBytes, reverse_cons, map_append, map_singleton, UInt8.toNat_ofNat']

theorem length_rank_beBytes : (rank (beBytes width value)).length = width := by
  rw [rank, length_map, beBytes, length_reverse, length_leBytes]

theorem rank_beBytes_injective {width first second : ℕ} (fits : first < 256 ^ width)
    (otherFits : second < 256 ^ width)
    (same : rank (beBytes width first) = rank (beBytes width second)) : first = second := by
  have bytes := map_injective_iff.mpr (fun _ _ => UInt8.toNat_inj.mp) same
  rw [← leValue_leBytes width first fits, ← leValue_leBytes width second otherFits,
    reverse_injective bytes]

theorem rank_beBytes_lt_iff {width first second : ℕ} (fits : first < 256 ^ width)
    (otherFits : second < 256 ^ width) :
    rank (beBytes width first) < rank (beBytes width second) ↔ first < second := by
  induction width generalizing first second with
  | zero =>
    rw [pow_zero] at fits otherFits
    obtain rfl : first = second := by omega
    exact iff_of_false (lt_irrefl _) (lt_irrefl _)
  | succ width ih =>
    rw [pow_succ] at fits otherFits
    have left : first / 256 < 256 ^ width := Nat.div_lt_of_lt_mul (by rwa [Nat.mul_comm] at fits)
    have right : second / 256 < 256 ^ width :=
      Nat.div_lt_of_lt_mul (by rwa [Nat.mul_comm] at otherFits)
    have front : rank (beBytes width (first / 256)) = rank (beBytes width (second / 256)) ↔
        first / 256 = second / 256 :=
      ⟨rank_beBytes_injective left right, fun same => by rw [same]⟩
    rw [rank_beBytes_succ, rank_beBytes_succ,
      concat_lt_concat_iff (by rw [length_rank_beBytes, length_rank_beBytes]), ih left right,
      front]
    omega

end Bytes
