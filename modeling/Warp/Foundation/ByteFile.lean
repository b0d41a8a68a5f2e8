import Warp.Foundation.Bytes

/-! # Files with a cursor

Writing at the cursor overwrites and extends; a gap that a seek left before it is filled with zeros.
Writes after a seek into an empty file append (`ByteFile.Appends.writeAll`), and a final write over
the gap puts its bytes before them (`ByteFile.Appends.writeFront`).
-/

/-- The bytes of a file and the position of the next write. -/
structure ByteFile where
  bytes : Bytes
  cursor : ℕ

namespace ByteFile

open List

def create : ByteFile := ⟨[], 0⟩

def seek (file : ByteFile) (position : ℕ) : ByteFile := { file with cursor := position }

def writeAll (file : ByteFile) (data : Bytes) : ByteFile :=
  if data.isEmpty then file
  else
    let padded := file.bytes ++ List.replicate (file.cursor - file.bytes.length) 0
    { bytes := padded.take file.cursor ++ data ++ file.bytes.drop (file.cursor + data.length)
      cursor := file.cursor + data.length }

/-- Some bytes have been written one after the other behind a gap at the start of
the file. -/
structure Appends (gap : ℕ) (written : Bytes) (file : ByteFile) : Prop where
  cursor_eq : file.cursor = gap + written.length
  bytes_eq : file.bytes = List.replicate gap 0 ++ written ∨ file.bytes = [] ∧ written = []

theorem appends_seek (gap : ℕ) : Appends gap [] (create.seek gap) := ⟨rfl, Or.inr ⟨rfl, rfl⟩⟩

variable {gap : ℕ} {written : Bytes} {file : ByteFile}

theorem Appends.writeAll (appends : Appends gap written file) (data : Bytes) :
    Appends gap (written ++ data) (file.writeAll data) := by
  obtain ⟨cursor, bytes⟩ := appends
  unfold ByteFile.writeAll
  by_cases empty : data.isEmpty = true
  · rw [if_pos empty, List.isEmpty_iff.mp empty, append_nil]
    exact ⟨cursor, bytes⟩
  · rw [if_neg empty]
    refine ⟨by rw [length_append, cursor, Nat.add_assoc], Or.inl ?_⟩
    rcases bytes with present | ⟨present, rfl⟩
    · have length : file.bytes.length = file.cursor := by
        rw [present, cursor, length_append, length_replicate]
      simp only [length, Nat.sub_self, replicate_zero, append_nil]
      rw [← length, take_length, drop_eq_nil_of_le (Nat.le_add_right _ _),
        append_nil, present, append_assoc]
    · simp only [length_nil, Nat.add_zero] at cursor
      simp [present, cursor]

theorem Appends.writeFront (appends : Appends gap written file) {front : Bytes}
    (length : front.length = gap) :
    ((file.seek 0).writeAll front).bytes = front ++ written := by
  obtain ⟨-, bytes⟩ := appends
  unfold ByteFile.writeAll seek
  by_cases empty : front.isEmpty = true
  · rw [List.isEmpty_iff] at empty
    subst empty
    subst length
    rcases bytes with present | ⟨present, rfl⟩ <;> simp [present]
  · rw [if_neg empty]
    rcases bytes with present | ⟨present, rfl⟩
    · simp [present, length]
    · simp [present]

end ByteFile
