import Warp.Format.Header
import Warp.Format.SparseMerkleTree
import Warp.Foundation.Outcome

/-! # Reading an archive

The reader parses the header, the chunk index and the file table of the mapped file, and then reads
chunks: slice, decrypt, decompress, check the size. Sums of offsets and sizes wrap in a release
build and panic in a debug build, and so does a slice whose bounds are not in order. The hash, the
compressors, the cipher and the MessagePack library are parameters.
-/

/-! ## The chunk index and the file table

The chunk index is a sequence of entries of 56 bytes each; every index is read back
from its bytes as it was written (`ChunkIndex.fromBytes_toBytes`). The
file table maps paths to ranges of chunks; its encoding is that of the MessagePack
library and not modeled.
-/

namespace Warp.Format

@[ext]
structure ChunkEntry where
  offset : UInt64
  compressedSize : UInt32
  originalSize : UInt32
  hash : ChunkHash
  flags : UInt8
  reserved : Vector UInt8 7

namespace ChunkEntry

def SIZE : ℕ := 56

def isCompressed (entry : ChunkEntry) : Bool := entry.flags &&& 0x01 ≠ 0

def toBytes (entry : ChunkEntry) : Bytes :=
  u64Bytes entry.offset ++ (u32Bytes entry.compressedSize ++ (u32Bytes entry.originalSize ++
  (entry.hash.toList ++ ([entry.flags] ++ entry.reserved.toList))))

def fromBytes (bytes : Bytes) : ChunkEntry where
  offset := u64At bytes 0
  compressedSize := u32At bytes 8
  originalSize := u32At bytes 12
  hash := vectorAt 32 bytes 16
  flags := bytes.getD 48 0
  reserved := vectorAt 7 bytes 49

variable (entry : ChunkEntry)

@[simp] theorem length_toBytes : entry.toBytes.length = SIZE := by
  simp [toBytes, SIZE]

theorem fromBytes_toBytes : fromBytes entry.toBytes = entry := by
  have reserved : vectorAt 7 (entry.reserved.toList) 0 = entry.reserved := by
    simpa using vectorAt_append entry.reserved []
  unfold fromBytes toBytes
  simp (disch := simp) only [u64At_append, u32At_skip, u32At_append, vectorAt_skip,
    vectorAt_append, getD_skip, length_u64Bytes, length_u32Bytes, Vector.length_toList,
    List.length_cons, List.length_nil, Nat.reduceAdd, Nat.reduceSub, List.getD_append,
    List.getD_cons_zero, reserved]

end ChunkEntry

namespace ChunkIndex

def toBytes (entries : List ChunkEntry) : Bytes := entries.flatMap ChunkEntry.toBytes

def fromBytes (bytes : Bytes) : Except FormatError (List ChunkEntry) :=
  let size := bytes.length
  let entrySize := ChunkEntry.SIZE
  if size % entrySize ≠ 0 then
    .error (.corrupted s!"Invalid chunk index size: {size} (not a multiple of {entrySize})")
  else
    .ok ((List.range (size / entrySize)).map fun place =>
      ChunkEntry.fromBytes (Bytes.slice bytes (place * entrySize) (place * entrySize + entrySize)))

variable (entries : List ChunkEntry)

theorem length_toBytes :
    (toBytes entries).length = entries.length * ChunkEntry.SIZE := by
  unfold toBytes
  induction entries with
  | nil => rfl
  | cons entry rest ih =>
    rw [List.flatMap_cons, List.length_append, ih, ChunkEntry.length_toBytes, List.length_cons,
      Nat.succ_mul, Nat.add_comm]

theorem fromBytes_toBytes :
    fromBytes (toBytes entries) = .ok entries := by
  have positive : 0 < ChunkEntry.SIZE := by decide
  unfold fromBytes
  simp only [length_toBytes, Nat.mul_mod_left, ne_eq, not_true_eq_false, ↓reduceIte,
    Nat.mul_div_cancel _ positive, Except.ok.injEq]
  apply List.ext_getElem?
  intro place
  rw [List.getElem?_map]
  by_cases inside : place < entries.length
  · rw [List.getElem?_range inside, List.getElem?_eq_getElem inside, Option.map_some]
    have block := Bytes.slice_flatMap ChunkEntry.toBytes ChunkEntry.length_toBytes entries
      (List.getElem?_eq_getElem inside) []
    rw [List.append_nil] at block
    rw [toBytes, block, ChunkEntry.fromBytes_toBytes]
  · rw [List.getElem?_eq_none (by simpa using inside), List.getElem?_eq_none (by omega)]
    rfl

end ChunkIndex

structure FileEntry where
  path : String
  size : UInt64
  mode : UInt32
  mtime : Int64
  chunkStart : UInt64
  chunkEnd : UInt64
  hash : ChunkHash

def FileTable.getByPath (entries : List FileEntry) (path : String) : Option FileEntry :=
  entries.find? fun entry => entry.path = path

open Outcome

abbrev Key := Vector UInt8 32

abbrev Nonce := Vector UInt8 12

inductive Codec where
  | zstd
  | lz4
  deriving DecidableEq

structure Backend where
  hash : Bytes → ChunkHash
  compress : Codec → Bytes → Except String Bytes
  decompress : Codec → Bytes → Except String Bytes
  encrypt : Key → Nonce → Bytes → Except String Bytes
  decrypt : Key → Bytes → Except String Bytes
  serializeTable : List FileEntry → Except String Bytes
  deserializeTable : Bytes → Except String (List FileEntry)

def Backend.hashPair (backend : Backend) (left right : ChunkHash) : ChunkHash :=
  backend.hash (left.toList ++ right.toList)

def zeroHash : ChunkHash := Vector.replicate 32 0

/-- How the program was built: only a debug build checks for overflow and runs debug
assertions. -/
inductive BuildProfile where
  | debug
  | release
  deriving DecidableEq

section Ranges

def addU64 (profile : BuildProfile) (left right : UInt64) : Outcome FormatError UInt64 :=
  if profile = .debug ∧ 2 ^ 64 ≤ left.toNat + right.toNat then .panic else .ok (left + right)

def indexRange (bytes : Bytes) (start stop : UInt64) : Outcome FormatError Bytes :=
  if start.toNat ≤ stop.toNat ∧ stop.toNat ≤ bytes.length then
    .ok (Bytes.slice bytes start.toNat stop.toNat)
  else .panic

/-- The bytes of a given size at an offset, with the error for a range that ends
beyond the file. -/
def readRange (profile : BuildProfile) (mmap : Bytes) (offset size : UInt64)
    (beyond : UInt64 → FormatError) : Outcome FormatError Bytes := do
  let stop ← addU64 profile offset size
  Outcome.require (stop.toNat ≤ mmap.length) (beyond stop)
  indexRange mmap offset stop

variable {profile : BuildProfile} {mmap : Bytes} {offset size : UInt64}
  {beyond : UInt64 → FormatError}

section
variable (fits : offset.toNat + size.toNat < 2 ^ 64)
include fits

theorem addU64_eq :
    addU64 profile offset size = .ok (offset + size) :=
  if_neg fun overflow => absurd overflow.2 (not_le.mpr fits)

theorem toNat_add_of_fits :
    (offset + size).toNat = offset.toNat + size.toNat := by
  rw [UInt64.toNat_add, Nat.mod_eq_of_lt fits]

theorem readRange_inside (inside : offset.toNat + size.toNat ≤ mmap.length) :
    readRange profile mmap offset size beyond =
      .ok (Bytes.slice mmap offset.toNat (offset.toNat + size.toNat)) := by
  have stop := toNat_add_of_fits fits
  have required : Outcome.require ((offset + size).toNat ≤ mmap.length) (beyond (offset + size)) =
      .ok () := if_pos (by rwa [stop])
  simp only [readRange, addU64_eq fits, bind_eq, ok_bind, required]
  rw [indexRange, if_pos (by rw [stop]; exact ⟨Nat.le_add_right _ _, inside⟩), stop]

end

theorem readRange_section (front middle back : Bytes) (startEq : offset.toNat = front.length)
    (sizeEq : size.toNat = middle.length) (fits : front.length + middle.length < 2 ^ 64) :
    readRange profile (front ++ (middle ++ back)) offset size beyond = .ok middle := by
  rw [readRange_inside (by rwa [startEq, sizeEq]) (by simp [startEq, sizeEq]), startEq, sizeEq,
    Bytes.slice_append_mid _ _ _ rfl rfl]

/-- The sum of an offset and a size wraps to a position inside the file. -/
def WrapsInto (length : ℕ) (offset size : UInt64) : Prop :=
  2 ^ 64 ≤ offset.toNat + size.toNat ∧ offset.toNat + size.toNat - 2 ^ 64 ≤ length
  deriving Decidable

theorem readRange_release_eq_panic_iff :
    readRange .release mmap offset size beyond = .panic ↔ WrapsInto mmap.length offset size := by
  have offsetFits := offset.toNat_lt
  have sizeFits := size.toNat_lt
  have sum : addU64 .release offset size = .ok (offset + size) := if_neg fun debug => by
    cases debug.1
  have stop := UInt64.toNat_add offset size
  simp only [readRange, sum, bind_eq, ok_bind, Outcome.require, indexRange, WrapsInto]
  by_cases wraps : 2 ^ 64 ≤ offset.toNat + size.toNat
  · have wrapped : (offset + size).toNat = offset.toNat + size.toNat - 2 ^ 64 := by
      rw [stop]
      omega
    by_cases inside : (offset + size).toNat ≤ mmap.length
    · rw [if_pos inside, ok_bind, if_neg (by omega)]
      simp only [true_iff]
      exact ⟨wraps, by omega⟩
    · rw [if_neg inside, error_bind]
      simp only [reduceCtorEq, false_iff, not_and]
      omega
  · have exact : (offset + size).toNat = offset.toNat + size.toNat := by
      rw [stop]
      omega
    by_cases inside : (offset + size).toNat ≤ mmap.length
    · rw [if_pos inside, ok_bind, if_pos (by omega)]
      exact iff_of_false (by simp) fun both => wraps both.1
    · rw [if_neg inside, error_bind]
      exact iff_of_false (by simp) fun both => wraps both.1

end Ranges

structure WarpReader where
  mmap : Bytes
  header : Header
  chunkIndex : List ChunkEntry
  fileTable : List FileEntry
  decompressor : Codec
  decryptionKey : Option Key
  sparseTree : Option (SparseMerkleTree ChunkHash)

namespace WarpReader

variable (backend : Backend) (profile : BuildProfile)

def decompressorFor : Compression → Codec
  | .none => .zstd
  | .zstd => .zstd
  | .lz4 => .lz4

def openHeader (mmap : Bytes) (key : Option Key) : Outcome FormatError Header := do
  let size := mmap.length
  let expected := Header.HEADER_SIZE
  Outcome.require (expected ≤ size)
    (.corrupted s!"File too small: {size} bytes (expected at least {expected})")
  let header ← Outcome.ofExcept (Header.fromBytes (Bytes.slice mmap 0 expected))
  Outcome.require (header.encryption = .none ∨ key.isSome)
    (.corrupted "Archive is encrypted but no decryption key provided. Use open_encrypted()")
  return header

def openIndex (mmap : Bytes) (header : Header) : Outcome FormatError (List ChunkEntry) := do
  let size := mmap.length
  let indexBytes ← readRange profile mmap header.indexOffset header.indexSize fun stop =>
    .corrupted s!"Index extends beyond file: {stop} > {size}"
  let chunkIndex ← Outcome.ofExcept (ChunkIndex.fromBytes indexBytes)
  let count := chunkIndex.length
  let total := header.totalChunks
  Outcome.require (count = total.toNat)
    (.corrupted s!"Chunk count mismatch: index has {count}, header says {total}")
  return chunkIndex

def openTable (mmap : Bytes) (header : Header) : Outcome FormatError (List FileEntry) := do
  let size := mmap.length
  let tableBytes ← readRange profile mmap header.fileTableOffset header.fileTableSize fun stop =>
    .corrupted s!"File table extends beyond file: {stop} > {size}"
  let fileTable ← Outcome.ofExcept
    ((backend.deserializeTable tableBytes).mapError FormatError.serialization)
  let count := fileTable.length
  let total := header.totalFiles
  Outcome.require (count = total.toNat)
    (.corrupted s!"File count mismatch: table has {count}, header says {total}")
  return fileTable

def openInternal (mmap : Bytes) (key : Option Key) : Outcome FormatError WarpReader := do
  let header ← openHeader mmap key
  let chunkIndex ← openIndex profile mmap header
  let fileTable ← openTable backend profile mmap header
  return {
    mmap, header, chunkIndex, fileTable
    decompressor := decompressorFor header.compression
    decryptionKey := key
    sparseTree := none }

section
variable (reader : WarpReader)

def decryptChunk (index : ℕ) (stored : Bytes) : Outcome FormatError Bytes :=
  match reader.decryptionKey with
  | some key =>
    Outcome.ofExcept ((backend.decrypt key stored).mapError fun message =>
      .corrupted s!"Decryption failed for chunk {index}: {message}")
  | none => .ok stored

def decompressChunk (entry : ChunkEntry) (bytes : Bytes) : Outcome FormatError Bytes :=
  if entry.isCompressed then
    Outcome.ofExcept ((backend.decompress reader.decompressor bytes).mapError
      FormatError.compression)
  else .ok bytes

def readChunk (index : ℕ) : Outcome FormatError Bytes :=
  match reader.chunkIndex[index]? with
  | none => .error (.corrupted s!"Invalid chunk index: {index}")
  | some entry => do
      let size := reader.mmap.length
      let stored ← readRange profile reader.mmap entry.offset entry.compressedSize.toUInt64
        fun stop => .corrupted s!"Chunk {index} extends beyond file: {stop} > {size}"
      let decrypted ← decryptChunk backend reader index stored
      let data ← decompressChunk backend reader entry decrypted
      let got := data.length
      let expected := entry.originalSize
      Outcome.require (got = expected.toNat) (.corrupted
        s!"Decompressed size mismatch for chunk {index}: got {got}, expected {expected}")
      Outcome.require (profile = .debug → backend.hash data = entry.hash)
        (.corrupted s!"Hash mismatch for chunk {index}")
      return data

def readFileData (entry : FileEntry) : Outcome FormatError Bytes := do
  let chunks ← Outcome.forEach (readChunk backend profile reader)
    (List.range' entry.chunkStart.toNat (entry.chunkEnd.toNat - entry.chunkStart.toNat))
  return chunks.flatten

/-- Verify the integrity of all chunks: rebuild the Merkle root from the data and
compare it with the header. -/
def verify : Outcome FormatError Bool := do
  let chunks ← Outcome.forEach (readChunk backend profile reader)
    (List.range reader.chunkIndex.length)
  let tree := MerkleTree.fromLeaves backend.hashPair zeroHash (chunks.map backend.hash)
  return tree.root zeroHash = reader.header.merkleRoot

def buildVerificationTree : WarpReader :=
  if reader.chunkIndex.isEmpty then reader
  else
    { reader with
      sparseTree := some (SparseMerkleTree.fromLeaves backend.hashPair zeroHash
        (reader.chunkIndex.map ChunkEntry.hash)) }

end

def openWithVerification (mmap : Bytes) : Outcome FormatError WarpReader := do
  let reader ← openInternal backend profile mmap none
  return buildVerificationTree backend reader

/-- Verify a single chunk against the sparse Merkle tree. The query may fill the
cache of the tree. -/
def verifyChunkFast (reader : WarpReader) (index : ℕ) : Outcome FormatError (Bool × WarpReader) :=
  match reader.sparseTree with
  | none => .error (.corrupted
      "Verification tree not built. Call build_verification_tree() first")
  | some tree => do
      Outcome.require (index < reader.chunkIndex.length)
        (.corrupted s!"Invalid chunk index: {index}")
      let chunkData ← readChunk backend profile reader index
      let (valid, tree) :=
        tree.verifyChunk backend.hashPair zeroHash index (backend.hash chunkData)
      return (valid, { reader with sparseTree := some tree })

end WarpReader

end Warp.Format
