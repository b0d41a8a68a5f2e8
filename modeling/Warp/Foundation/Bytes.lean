import Mathlib.Data.List.Basic
import Mathlib.Tactic.Ring

/-! # Byte strings

Numbers are written as little-endian bytes of a fixed width and read back exactly
(`Bytes.leValue_leBytes`). A record is the concatenation of its fields; reading the
range of a field out of the concatenation gives back the field
(`Bytes.slice_append_skip`, `Bytes.slice_append_self`).
-/

abbrev Bytes := List UInt8

namespace Bytes

/-- The little-endian bytes of a number, at a width. -/
def leBytes : ℕ → ℕ → Bytes
  | 0, _ => []
  | width + 1, value => UInt8.ofNat value :: leBytes width (value / 256)

/-- The number of little-endian bytes. -/
def leValue : Bytes → ℕ
  | [] => 0
  | byte :: rest => byte.toNat + 256 * leValue rest

/-- The big-endian bytes of a number, at a width. -/
def beBytes (width value : ℕ) : Bytes := (leBytes width value).reverse

/-- The number of big-endian bytes. -/
def beValue (bytes : Bytes) : ℕ := leValue bytes.reverse

/-- The bytes from one position up to another. -/
def slice (bytes : Bytes) (start stop : ℕ) : Bytes := (bytes.drop start).take (stop - start)

/-- The first bytes as an array of fixed length, with zeros where there are none. -/
def toVector (length : ℕ) (bytes : Bytes) : Vector UInt8 length :=
  Vector.ofFn fun place => bytes.getD place 0

variable (width value : ℕ) (bytes : Bytes) {stop length : ℕ} {Item : Type*} {start : ℕ}

@[simp] theorem length_leBytes : (leBytes width value).length = width := by
  induction width generalizing value with
  | zero => rfl
  | succ width ih => simp [leBytes, ih]

theorem leValue_lt : leValue bytes < 256 ^ bytes.length := by
  induction bytes with
  | nil => exact Nat.one_pos
  | cons byte rest ih =>
    have small := byte.toNat_lt
    rw [leValue, List.length_cons, Nat.pow_succ]
    omega

theorem leValue_leBytes (fits : value < 256 ^ width) :
    leValue (leBytes width value) = value := by
  induction width generalizing value with
  | zero =>
    simp only [pow_zero] at fits
    simp only [leBytes, leValue]
    omega
  | succ width ih =>
    have quotient : value / 256 < 256 ^ width := by
      rw [pow_succ] at fits
      exact Nat.div_lt_of_lt_mul (by rwa [Nat.mul_comm] at fits)
    rw [leBytes, leValue, ih _ quotient, UInt8.toNat_ofNat']
    exact Nat.mod_add_div value 256

theorem leBytes_leValue : leBytes bytes.length (leValue bytes) = bytes := by
  induction bytes with
  | nil => rfl
  | cons byte rest ih =>
    have small := byte.toNat_lt
    rw [List.length_cons, leBytes, leValue]
    congr 1
    · apply UInt8.toNat_inj.mp
      rw [UInt8.toNat_ofNat']
      omega
    · rw [show (byte.toNat + 256 * leValue rest) / 256 = leValue rest by omega, ih]

theorem slice_append_skip {front : Bytes} (back : Bytes) (skipped : front.length ≤ start) :
    slice (front ++ back) start stop = slice back (start - front.length) (stop - front.length) := by
  unfold slice
  rw [List.drop_append, List.drop_eq_nil_of_le skipped, List.nil_append]
  congr 1
  omega

theorem slice_append_self (front back : Bytes) (length : stop = front.length) :
    slice (front ++ back) 0 stop = front := by
  rw [slice, List.drop_zero, Nat.sub_zero, length, List.take_left]

theorem slice_append_mid (front middle back : Bytes) (startEq : start = front.length)
    (stopEq : stop = front.length + middle.length) :
    slice (front ++ (middle ++ back)) start stop = middle := by
  rw [slice_append_skip _ startEq.ge, startEq, stopEq, Nat.sub_self, Nat.add_sub_cancel_left,
    slice_append_self _ _ rfl]

theorem length_flatMap {block : Item → Bytes} {width : ℕ}
    (uniform : ∀ item, (block item).length = width) (items : List Item) :
    (items.flatMap block).length = width * items.length := by
  induction items with
  | nil => rfl
  | cons item rest ih =>
    rw [List.flatMap_cons, List.length_append, uniform, ih, List.length_cons]
    ring

theorem slice_flatMap (block : Item → Bytes) {width : ℕ}
    (uniform : ∀ item, (block item).length = width) (items : List Item) {place : ℕ} {item : Item}
    (found : items[place]? = some item) (back : Bytes) :
    slice (items.flatMap block ++ back) (place * width) (place * width + width) = block item := by
  induction items generalizing place with
  | nil => simp at found
  | cons first rest ih =>
    rw [List.flatMap_cons, List.append_assoc]
    cases place with
    | zero =>
      obtain rfl : first = item := by simpa using found
      rw [Nat.zero_mul, Nat.zero_add, slice_append_self _ _ (uniform first).symm]
    | succ place =>
      rw [slice_append_skip _ (by rw [uniform, Nat.succ_mul]; omega), uniform,
        ← ih (by simpa using found), Nat.succ_mul]
      congr 1 <;> omega

theorem toList_toVector {bytes : Bytes} (exact : bytes.length = length) :
    (toVector length bytes).toList = bytes := by
  apply List.ext_getElem
  · rw [Vector.length_toList, exact]
  · intro place _ inside
    simp [toVector, inside]

@[simp] theorem toVector_toList (vector : Vector UInt8 length) :
    toVector length vector.toList = vector := by
  apply Vector.ext
  intro place inside
  simp [toVector, List.getD]

end Bytes
