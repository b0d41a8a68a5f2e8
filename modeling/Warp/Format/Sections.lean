import Warp.Format.Reader

/-! # What the reader accepts

Whether some bytes are accepted as an archive depends on the sections found in them:
the header at the front, the chunk index and the file table where the header says. The
reader opens exactly the bytes that have all three, in either build
(`openInternal_eq_ok_iff`).
-/

namespace Warp.Format

open WarpReader Outcome

/-- A range ends inside the file. -/
def InFile (length : ℕ) (offset size : UInt64) : Prop :=
  offset.toNat + size.toNat < 2 ^ 64 ∧ offset.toNat + size.toNat ≤ length
  deriving Decidable

def sectionAt (mmap : Bytes) (offset size : UInt64) : Bytes :=
  Bytes.slice mmap offset.toNat (offset.toNat + size.toNat)

theorem sectionAt_append (front middle back : Bytes) {offset size : UInt64}
    (startEq : offset.toNat = front.length) (sizeEq : size.toNat = middle.length) :
    sectionAt (front ++ (middle ++ back)) offset size = middle := by
  rw [sectionAt, startEq, sizeEq, Bytes.slice_append_mid _ _ _ rfl rfl]

structure HeaderOf (mmap : Bytes) (key : Option Key) (header : Header) : Prop where
  large : Header.HEADER_SIZE ≤ mmap.length
  parsed : Header.fromBytes (Bytes.slice mmap 0 Header.HEADER_SIZE) = .ok header
  unlocked : header.encryption = .none ∨ key.isSome

structure IndexOf (mmap : Bytes) (header : Header) (entries : List ChunkEntry) : Prop where
  inside : InFile mmap.length header.indexOffset header.indexSize
  parsed : ChunkIndex.fromBytes (sectionAt mmap header.indexOffset header.indexSize) = .ok entries
  counted : entries.length = header.totalChunks.toNat

structure TableOf (backend : Backend) (mmap : Bytes) (header : Header)
    (table : List FileEntry) : Prop where
  inside : InFile mmap.length header.fileTableOffset header.fileTableSize
  parsed : backend.deserializeTable
    (sectionAt mmap header.fileTableOffset header.fileTableSize) = .ok table
  counted : table.length = header.totalFiles.toNat

def readerOf (mmap : Bytes) (key : Option Key) (header : Header) (entries : List ChunkEntry)
    (table : List FileEntry) : WarpReader where
  mmap := mmap
  header := header
  chunkIndex := entries
  fileTable := table
  decompressor := decompressorFor header.compression
  decryptionKey := key
  sparseTree := none

variable {backend : Backend} {profile : BuildProfile} {mmap : Bytes} {key : Option Key}
  {header : Header}

theorem readRange_eq_ok_iff {offset size : UInt64} {beyond : UInt64 → FormatError}
    {bytes : Bytes} :
    readRange profile mmap offset size beyond = .ok bytes ↔
      InFile mmap.length offset size ∧ sectionAt mmap offset size = bytes := by
  constructor
  · intro read
    simp only [readRange, bind_eq, bind_eq_ok_iff, addU64, indexRange] at read
    obtain ⟨stop, added, -, -, indexed⟩ := read
    split at added
    · cases added
    · obtain rfl := Outcome.ok.inj added
      split at indexed
      next ordered =>
        have sum := UInt64.toNat_add offset size
        have offsetFits := offset.toNat_lt
        have sizeFits := size.toNat_lt
        -- a wrapped end lies before the start
        have fits : offset.toNat + size.toNat < 2 ^ 64 := by omega
        rw [toNat_add_of_fits fits] at ordered indexed
        exact ⟨⟨fits, ordered.2⟩, Outcome.ok.inj indexed⟩
      next => cases indexed
  · rintro ⟨⟨fits, inside⟩, rfl⟩
    exact readRange_inside fits inside

theorem openHeader_eq_ok_iff : openHeader mmap key = .ok header ↔ HeaderOf mmap key header := by
  simp only [openHeader, bind_eq, bind_eq_ok_iff, require_eq_ok_iff,
    ofExcept_eq_ok_iff, pure_eq, Outcome.ok.injEq]
  constructor
  · rintro ⟨-, large, _, parsed, -, unlocked, rfl⟩
    exact ⟨large, parsed, unlocked⟩
  · rintro ⟨large, parsed, unlocked⟩
    exact ⟨(), large, header, parsed, (), unlocked, rfl⟩

theorem openIndex_eq_ok_iff {entries : List ChunkEntry} :
    openIndex profile mmap header = .ok entries ↔ IndexOf mmap header entries := by
  simp only [openIndex, bind_eq, bind_eq_ok_iff, require_eq_ok_iff,
    ofExcept_eq_ok_iff, pure_eq, Outcome.ok.injEq, readRange_eq_ok_iff]
  constructor
  · rintro ⟨_, ⟨inside, rfl⟩, _, parsed, -, counted, rfl⟩
    exact ⟨inside, parsed, counted⟩
  · rintro ⟨inside, parsed, counted⟩
    exact ⟨_, ⟨inside, rfl⟩, entries, parsed, (), counted, rfl⟩

theorem openTable_eq_ok_iff {table : List FileEntry} :
    openTable backend profile mmap header = .ok table ↔ TableOf backend mmap header table := by
  simp only [openTable, bind_eq, bind_eq_ok_iff, require_eq_ok_iff,
    ofExcept_eq_ok_iff, pure_eq, Outcome.ok.injEq, readRange_eq_ok_iff,
    mapError_eq_ok_iff]
  constructor
  · rintro ⟨_, ⟨inside, rfl⟩, _, parsed, -, counted, rfl⟩
    exact ⟨inside, parsed, counted⟩
  · rintro ⟨inside, parsed, counted⟩
    exact ⟨_, ⟨inside, rfl⟩, table, parsed, (), counted, rfl⟩

theorem openInternal_eq_ok_iff {reader : WarpReader} :
    openInternal backend profile mmap key = .ok reader ↔
      ∃ header entries table, HeaderOf mmap key header ∧ IndexOf mmap header entries ∧
        TableOf backend mmap header table ∧ reader = readerOf mmap key header entries table := by
  simp only [openInternal, bind_eq, bind_eq_ok_iff, openHeader_eq_ok_iff,
    openIndex_eq_ok_iff, openTable_eq_ok_iff, pure_eq, Outcome.ok.injEq]
  constructor
  · rintro ⟨header, front, entries, index, table, listed, rfl⟩
    exact ⟨header, entries, table, front, index, listed, rfl⟩
  · rintro ⟨header, entries, table, front, index, listed, rfl⟩
    exact ⟨header, front, entries, index, table, listed, rfl⟩

end Warp.Format
