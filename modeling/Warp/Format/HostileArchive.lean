import Warp.Format.Sections

/-! # Opening arbitrary bytes

Nothing is known about the bytes of an archive that comes from elsewhere. The ends of
all ranges are computed before they are compared with the length of the file. A
release build therefore panics exactly on a range whose end wraps around to a position
inside the file, and on nothing else (`no_panic_iff`).
-/

namespace Warp.Format

open WarpReader Outcome

section
variable {backend : Backend} {mmap : Bytes} {key : Option Key} {header : Header}

theorem openHeader_ne_panic : openHeader mmap key ≠ .panic := by
  simp [openHeader, bind_ne_panic_iff]

theorem openIndex_ne_panic_iff :
    openIndex .release mmap header ≠ .panic ↔
      ¬WrapsInto mmap.length header.indexOffset header.indexSize := by
  simp [openIndex, bind_ne_panic_iff, readRange_release_eq_panic_iff]

theorem openTable_ne_panic_iff :
    openTable backend .release mmap header ≠ .panic ↔
      ¬WrapsInto mmap.length header.fileTableOffset header.fileTableSize := by
  simp [openTable, bind_ne_panic_iff, readRange_release_eq_panic_iff]

theorem readChunk_ne_panic_iff (reader : WarpReader) :
    (∀ index, readChunk backend .release reader index ≠ .panic) ↔
      ∀ entry ∈ reader.chunkIndex,
        ¬WrapsInto reader.mmap.length entry.offset entry.compressedSize.toUInt64 := by
  have decrypt index stored : decryptChunk backend reader index stored ≠ .panic := by
    unfold decryptChunk
    split <;> simp
  have decompress entry bytes : decompressChunk backend reader entry bytes ≠ .panic := by
    unfold decompressChunk
    split <;> simp
  have turn (index : ℕ) (entry : ChunkEntry)
      (found : reader.chunkIndex[index]? = some entry) :
      readChunk backend .release reader index ≠ .panic ↔
        ¬WrapsInto reader.mmap.length entry.offset entry.compressedSize.toUInt64 := by
    simp [readChunk, found, bind_ne_panic_iff, decrypt, decompress, readRange_release_eq_panic_iff]
  constructor
  · intro safe entry member
    obtain ⟨index, found⟩ := List.getElem?_of_mem member
    exact (turn index entry found).mp (safe index)
  · intro placed index
    cases found : reader.chunkIndex[index]? with
    | none => simp [readChunk, found]
    | some entry => exact (turn index entry found).mpr (placed entry (List.mem_of_getElem? found))

end

/-- As far as the sections of the archive are found, no range wraps around into the
file. -/
def NoRangeWraps (backend : Backend) (mmap : Bytes) (key : Option Key) : Prop :=
  ∀ header, HeaderOf mmap key header →
    ¬WrapsInto mmap.length header.indexOffset header.indexSize ∧
    ∀ entries, IndexOf mmap header entries →
      ¬WrapsInto mmap.length header.fileTableOffset header.fileTableSize ∧
      ∀ table, TableOf backend mmap header table → ∀ entry ∈ entries,
        ¬WrapsInto mmap.length entry.offset entry.compressedSize.toUInt64

/-- **Which archives are read without a panic.** In a release build, opening some
bytes and then reading any chunk returns a value or an error exactly if no range in
them wraps around into the file. -/
theorem no_panic_iff (backend : Backend) (mmap : Bytes) (key : Option Key) :
    (openInternal backend .release mmap key ≠ .panic ∧
      ∀ reader, openInternal backend .release mmap key = .ok reader →
        ∀ index, readChunk backend .release reader index ≠ .panic) ↔
      NoRangeWraps backend mmap key := by
  have opening : openInternal backend .release mmap key ≠ .panic ↔
      ∀ header, HeaderOf mmap key header →
        ¬WrapsInto mmap.length header.indexOffset header.indexSize ∧
        ∀ entries, IndexOf mmap header entries →
          ¬WrapsInto mmap.length header.fileTableOffset header.fileTableSize := by
    simp [openInternal, bind_ne_panic_iff, openHeader_ne_panic, openHeader_eq_ok_iff,
      openIndex_ne_panic_iff, openIndex_eq_ok_iff, openTable_ne_panic_iff]
  simp only [opening, openInternal_eq_ok_iff, readChunk_ne_panic_iff]
  constructor
  · rintro ⟨opens, reads⟩ header front
    refine ⟨(opens header front).1, fun entries index => ⟨(opens header front).2 entries index, ?_⟩⟩
    intro table listed
    exact reads _ ⟨header, entries, table, front, index, listed, rfl⟩
  · intro placed
    refine ⟨fun header front => ⟨(placed header front).1, fun entries index =>
      ((placed header front).2 entries index).1⟩, ?_⟩
    rintro reader ⟨header, entries, table, front, index, listed, rfl⟩
    exact ((placed header front).2 entries index).2 table listed

def wrappingHeader : Header :=
  { Header.new with indexOffset := 0xFFFFFFFFFFFFFFFF, indexSize := 1 }

def idleLibraries : Backend where
  hash _ := zeroHash
  compress _ data := .ok data
  decompress _ data := .ok data
  encrypt _ _ data := .ok data
  decrypt _ data := .ok data
  serializeTable _ := .ok []
  deserializeTable _ := .ok []

/-- Opening an archive that consists of this header panics. -/
theorem wrapping_archive_panics :
    openInternal idleLibraries .release wrappingHeader.toBytes none = .panic := by
  have front : HeaderOf wrappingHeader.toBytes none wrappingHeader := by
    refine ⟨by simp, ?_, Or.inl rfl⟩
    have whole := Bytes.slice_append_self wrappingHeader.toBytes []
      (Header.length_toBytes wrappingHeader).symm
    rw [List.append_nil] at whole
    rw [whole, Header.fromBytes_toBytes _ rfl]
  have wraps : WrapsInto wrappingHeader.toBytes.length wrappingHeader.indexOffset
      wrappingHeader.indexSize := by
    rw [Header.length_toBytes]
    decide
  have index : openIndex .release wrappingHeader.toBytes wrappingHeader = .panic := by
    by_contra safe
    exact openIndex_ne_panic_iff.mp safe wraps
  simp [openInternal, openHeader_eq_ok_iff.mpr front, index]

end Warp.Format
