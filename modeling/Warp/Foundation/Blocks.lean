import Warp.Foundation.Bytes

/-! # Blocks of one size

Bytes are cut into chunks of a size, the last of which may be shorter (`Bytes.chunks`). Bytes
that are a whole number of blocks are the concatenation of their chunks
(`Bytes.flatten_blocks`), and writing over a block of a concatenation replaces the block
(`Bytes.overwrite_flatten`).
-/

namespace Bytes

open List

/-- The first blocks of a size. -/
def blocks (size : ℕ) : ℕ → Bytes → List Bytes
  | 0, _ => []
  | count + 1, bytes => bytes.take size :: blocks size count (bytes.drop size)

/-- The chunks of a size, with a shorter one at the end if it does not divide the length. -/
def chunks (size : ℕ) (bytes : Bytes) : List Bytes :=
  blocks size ((bytes.length + size - 1) / size) bytes

/-- Truncate, or extend with a byte, to a length. -/
def resize (bytes : Bytes) (length : ℕ) (byte : UInt8) : Bytes :=
  bytes.take length ++ List.replicate (length - bytes.length) byte

/-- Write bytes over those from a place on. -/
def overwrite (bytes : Bytes) (start : ℕ) (data : Bytes) : Bytes :=
  bytes.take start ++ data ++ bytes.drop (start + data.length)

theorem length_resize (bytes : Bytes) (length : ℕ) (byte : UInt8) :
    (resize bytes length byte).length = length := by
  simp only [resize, length_append, length_take, length_replicate]
  omega

@[simp] theorem resize_length (bytes : Bytes) (byte : UInt8) :
    resize bytes bytes.length byte = bytes := by
  rw [resize, take_length, Nat.sub_self, replicate_zero, append_nil]

variable {bytes : Bytes} {size : ℕ} {count : ℕ}

theorem take_resize {length : ℕ} (long : bytes.length ≤ length) (byte : UInt8) :
    (resize bytes length byte).take bytes.length = bytes := by
  rw [resize, take_of_length_le long, take_left]

@[simp] theorem length_blocks (size count : ℕ) (bytes : Bytes) :
    (blocks size count bytes).length = count := by
  induction count generalizing bytes with
  | zero => rfl
  | succ count ih => rw [blocks, length_cons, ih]

theorem length_chunks_le (positive : 0 < size) (bytes : Bytes) :
    (chunks size bytes).length ≤ bytes.length := by
  rw [chunks, length_blocks]
  rcases Nat.eq_zero_or_pos bytes.length with empty | nonempty
  · rw [empty, Nat.zero_add, Nat.div_eq_of_lt (Nat.sub_one_lt_of_lt positive)]
  · obtain ⟨size, rfl⟩ := Nat.exists_eq_add_of_lt positive
    obtain ⟨length, same⟩ := Nat.exists_eq_add_of_lt nonempty
    rw [same]
    apply Nat.div_le_of_le_mul
    have product : (0 + size + 1) * (0 + length + 1) = size * length + size + length + 1 := by
      rw [Nat.zero_add, Nat.zero_add, Nat.add_mul, Nat.mul_add, Nat.mul_one, Nat.one_mul]
      omega
    omega

theorem chunks_eq_blocks (positive : 0 < size) (whole : bytes.length = count * size) :
    chunks size bytes = blocks size count bytes := by
  have quotient : (bytes.length + size - 1) / size = count := by
    rw [whole, Nat.add_sub_assoc positive, Nat.mul_comm, Nat.mul_add_div positive,
      Nat.div_eq_of_lt (Nat.sub_one_lt_of_lt positive), Nat.add_zero]
  rw [chunks, quotient]

theorem flatten_blocks_of_le (enough : bytes.length ≤ count * size) :
    (blocks size count bytes).flatten = bytes := by
  induction count generalizing bytes with
  | zero =>
    rw [Nat.zero_mul] at enough
    exact (eq_nil_of_length_eq_zero (Nat.le_zero.mp enough)).symm
  | succ count ih =>
    rw [Nat.succ_mul] at enough
    have rest : (bytes.drop size).length ≤ count * size := by
      rw [length_drop]
      omega
    rw [blocks, flatten_cons, ih rest, take_append_drop]

theorem flatten_blocks (whole : bytes.length = count * size) :
    (blocks size count bytes).flatten = bytes :=
  flatten_blocks_of_le whole.le

theorem flatten_chunks (positive : 0 < size) (bytes : Bytes) :
    (chunks size bytes).flatten = bytes := by
  refine flatten_blocks_of_le ?_
  have quotient := Nat.div_add_mod (bytes.length + size - 1) size
  have remainder := Nat.mod_lt (bytes.length + size - 1) positive
  rw [Nat.mul_comm]
  omega

theorem length_of_mem_blocks {block : Bytes} (whole : bytes.length = count * size)
    (member : block ∈ blocks size count bytes) :
    block.length = size := by
  induction count generalizing bytes with
  | zero => exact absurd member not_mem_nil
  | succ count ih =>
    rw [Nat.succ_mul] at whole
    rcases mem_cons.mp member with rfl | later
    · rw [length_take]
      omega
    · apply ih _ later
      rw [length_drop]
      omega

variable {blocks : List Bytes}

theorem length_flatten_uniform (uniform : ∀ block ∈ blocks, block.length = size) :
    blocks.flatten.length = blocks.length * size := by
  induction blocks with
  | nil => rw [length_nil, Nat.zero_mul]; rfl
  | cons block blocks ih =>
    obtain ⟨first, others⟩ := forall_mem_cons.mp uniform
    rw [flatten_cons, length_append, first, ih others, length_cons, Nat.succ_mul, Nat.add_comm]

theorem overwrite_append (front back : Bytes) (start : ℕ) (data : Bytes) :
    overwrite (front ++ back) (front.length + start) data = front ++ overwrite back start data := by
  rw [overwrite, overwrite, take_length_add_append, Nat.add_assoc, drop_length_add_append]
  simp

theorem overwrite_flatten {place : ℕ} {data : Bytes}
    (uniform : ∀ block ∈ blocks, block.length = size) (exact : data.length = size)
    (inside : place < blocks.length) :
    overwrite blocks.flatten (place * size) data = (blocks.set place data).flatten := by
  induction blocks generalizing place with
  | nil => exact absurd inside (Nat.not_lt_zero _)
  | cons block blocks ih =>
    obtain ⟨first, others⟩ := forall_mem_cons.mp uniform
    cases place with
    | zero =>
      rw [overwrite, Nat.zero_mul, Nat.zero_add, take_zero, nil_append,
        flatten_cons, exact, drop_left' first]
      rfl
    | succ place =>
      have behind : (place + 1) * size = block.length + place * size := by
        rw [Nat.succ_mul, first, Nat.add_comm]
      rw [flatten_cons, behind, overwrite_append, ih others (Nat.lt_of_succ_lt_succ inside)]
      rfl

end Bytes
