import Warp.Format.Reader
import Warp.Foundation.ByteFile
import Warp.Io.SeqCdc

/-! # What the writer writes

An archive is the header, the stored chunks, the chunk index and the file table (`Layout.image`).
The writer writes exactly this (`writeArchive_eq_image`): its file, tables and running totals keep
in step with the layout of what it was given so far (`Wrote`).
-/

/-! ## Writing an archive

The writer leaves a gap for the header, appends the stored form of every chunk,
compressed if that is smaller and then encrypted, and at the end appends the chunk
index and the file table and writes the header into the gap. Its 64-bit sums wrap, as
in a release build. The random salt and nonces are parameters.
-/

namespace Warp.Format

open Warp.Io

structure WarpWriterConfig where
  compression : Compression
  chunkSize : UInt32
  minChunkSize : UInt32
  maxChunkSize : UInt32
  encryption : Encryption
  encryptionKey : Option Key

structure SourceFile where
  archivePath : String
  content : Bytes
  mode : UInt32
  mtime : Int64

structure WarpWriter where
  file : ByteFile
  header : Header
  chunkIndex : List ChunkEntry
  fileTable : List FileEntry
  chunkHashes : List ChunkHash
  currentOffset : UInt64
  config : WarpWriterConfig
  compressor : Option Codec

namespace WarpWriter

def compressorFor : Compression → Option Codec
  | .none => none
  | .zstd => some .zstd
  | .lz4 => some .lz4

def initialHeader (config : WarpWriterConfig) (salt : Vector UInt8 16) : Header :=
  let header : Header :=
    { Header.new with
      compression := config.compression
      chunkSizeHint := config.chunkSize
      dataOffset := UInt64.ofNat Header.HEADER_SIZE
      encryption := config.encryption }
  if config.encryption ≠ .none then
    { header with flags := header.flags ||| Header.ENCRYPTED, salt }
  else header

def createWithConfig (config : WarpWriterConfig) (salt : Vector UInt8 16) : WarpWriter where
  file := ByteFile.create.seek Header.HEADER_SIZE
  header := initialHeader config salt
  chunkIndex := []
  fileTable := []
  chunkHashes := []
  currentOffset := UInt64.ofNat Header.HEADER_SIZE
  config := config
  compressor := compressorFor config.compression

def chunks (config : WarpWriterConfig) (content : Bytes) : List Bytes :=
  SeqCdcChunker.chunk (SeqCdcConfig.ofChunkerConfig
    { targetSize := config.chunkSize.toNat
      minSize := config.minChunkSize.toNat
      maxSize := config.maxChunkSize.toNat
      windowSize := 48 }) content

variable (backend : Backend)

/-- The compressed form of a chunk, if it is smaller, and the flags of its entry. -/
def compressChunk (compressor : Option Codec) (chunk : Bytes) : Bytes × UInt8 :=
  match compressor with
  | some codec =>
    match backend.compress codec chunk with
    | .ok compressed =>
      if compressed.length < chunk.length then (compressed, 0x01) else (chunk, 0x00)
    | .error _ => (chunk, 0x00)
  | none => (chunk, 0x00)

/-- The form in which a chunk is stored, and the flags of its entry. -/
def storeChunk (compressor : Option Codec) (key : Option Key) (nonce : Nonce) (chunk : Bytes) :
    Except FormatError (Bytes × UInt8) :=
  let (compressed, flags) := compressChunk backend compressor chunk
  match key with
  | some key => do
      let encrypted ← (backend.encrypt key nonce compressed).mapError fun message =>
        .corrupted s!"Encryption failed: {message}"
      return (encrypted, flags)
  | none => .ok (compressed, flags)

def appendChunk (writer : WarpWriter) (chunk stored : Bytes) (flags : UInt8) : WarpWriter :=
  let entry : ChunkEntry :=
    { offset := writer.currentOffset
      compressedSize := UInt32.ofNat stored.length
      originalSize := UInt32.ofNat chunk.length
      hash := backend.hash chunk
      flags
      reserved := Vector.replicate 7 0 }
  { writer with
    file := writer.file.writeAll stored
    chunkHashes := writer.chunkHashes ++ [entry.hash]
    chunkIndex := writer.chunkIndex ++ [entry]
    currentOffset := writer.currentOffset + entry.compressedSize.toUInt64
    header :=
      { writer.header with
        totalChunks := writer.header.totalChunks + 1
        originalSize := writer.header.originalSize + entry.originalSize.toUInt64
        compressedSize := writer.header.compressedSize + entry.compressedSize.toUInt64 } }

def addChunk (nonces : ℕ → Nonce) (writer : WarpWriter) (chunk : Bytes) :
    Except FormatError WarpWriter := do
  let (stored, flags) ← storeChunk backend writer.compressor writer.config.encryptionKey
    (nonces writer.chunkIndex.length) chunk
  return appendChunk backend writer chunk stored flags

/-- Account for a file whose chunks start at a place in the index and have all been
written. -/
def appendFile (writer : WarpWriter) (chunkStart : ℕ) (source : SourceFile) (fileData : Bytes) :
    WarpWriter :=
  let entry : FileEntry :=
    { path := source.archivePath
      size := UInt64.ofNat source.content.length
      mode := source.mode
      mtime := source.mtime
      chunkStart := UInt64.ofNat chunkStart
      chunkEnd := UInt64.ofNat writer.chunkIndex.length
      hash := backend.hash fileData }
  { writer with
    fileTable := writer.fileTable ++ [entry]
    header := { writer.header with totalFiles := writer.header.totalFiles + 1 } }

def addFile (nonces : ℕ → Nonce) (writer : WarpWriter) (source : SourceFile) :
    Except FormatError WarpWriter := do
  let parts := chunks writer.config source.content
  let written ← parts.foldlM (addChunk backend nonces) writer
  return appendFile backend written writer.chunkIndex.length source parts.flatten

def finish (writer : WarpWriter) : Except FormatError Bytes := do
  let leaves := if writer.chunkHashes.isEmpty then [zeroHash] else writer.chunkHashes
  let tree := MerkleTree.fromLeaves backend.hashPair zeroHash leaves
  let indexBytes := ChunkIndex.toBytes writer.chunkIndex
  let indexEnd := writer.currentOffset + UInt64.ofNat indexBytes.length
  let tableBytes ← (backend.serializeTable writer.fileTable).mapError FormatError.serialization
  let header :=
    { writer.header with
      merkleRoot := tree.root zeroHash
      indexOffset := writer.currentOffset
      indexSize := UInt64.ofNat indexBytes.length
      fileTableOffset := indexEnd
      fileTableSize := UInt64.ofNat tableBytes.length }
  let file := (writer.file.writeAll indexBytes).writeAll tableBytes
  return ((file.seek 0).writeAll header.toBytes).bytes

def writeArchive (config : WarpWriterConfig) (salt : Vector UInt8 16) (nonces : ℕ → Nonce)
    (sources : List SourceFile) : Except FormatError Bytes := do
  let writer ← sources.foldlM (addFile backend nonces) (createWithConfig config salt)
  finish backend writer

end WarpWriter

open WarpWriter UInt64

/-- The documented behaviour of the libraries: what was compressed or encrypted is
recovered. -/
structure Backend.RoundTrips (backend : Backend) : Prop where
  decompress : ∀ codec data compressed, backend.compress codec data = .ok compressed →
    backend.decompress codec compressed = .ok data
  decrypt : ∀ key nonce data, ∃ encrypted, backend.encrypt key nonce data = .ok encrypted ∧
    backend.decrypt key encrypted = .ok data

structure StoredChunk where
  chunk : Bytes
  stored : Bytes
  flags : UInt8

def payload (stored : List StoredChunk) : Bytes := stored.flatMap StoredChunk.stored

variable (backend : Backend) (config : WarpWriterConfig) (salt : Vector UInt8 16)

@[simps]
def StoredChunk.entry (offset : ℕ) (item : StoredChunk) : ChunkEntry where
  offset := UInt64.ofNat offset
  compressedSize := UInt32.ofNat item.stored.length
  originalSize := UInt32.ofNat item.chunk.length
  hash := backend.hash item.chunk
  flags := item.flags
  reserved := Vector.replicate 7 0

def entriesFrom : ℕ → List StoredChunk → List ChunkEntry
  | _, [] => []
  | offset, item :: rest =>
    item.entry backend offset :: entriesFrom (offset + item.stored.length) rest

/-- The table entry of a file whose chunks start at a place in the index. -/
def SourceFile.entry (start : ℕ) (source : SourceFile) : FileEntry where
  path := source.archivePath
  size := UInt64.ofNat source.content.length
  mode := source.mode
  mtime := source.mtime
  chunkStart := UInt64.ofNat start
  chunkEnd := UInt64.ofNat (start + (chunks config source.content).length)
  hash := backend.hash source.content

/-- The table entries of files whose chunks start at a place in the index. -/
def tableFrom : ℕ → List SourceFile → List FileEntry
  | _, [] => []
  | start, source :: rest =>
    source.entry backend config start ::
      tableFrom (start + (chunks config source.content).length) rest

def allChunks (sources : List SourceFile) : List Bytes :=
  sources.flatMap fun source => chunks config source.content

def fileTableOf (sources : List SourceFile) : List FileEntry := tableFrom backend config 0 sources

def progressHeader (files : ℕ) (stored : List StoredChunk) : Header :=
  { initialHeader config salt with
    totalChunks := UInt64.ofNat stored.length
    totalFiles := UInt64.ofNat files
    originalSize := UInt64.ofNat (stored.map fun item => item.chunk.length).sum
    compressedSize := UInt64.ofNat (payload stored).length }

def rootOf (stored : List StoredChunk) : ChunkHash :=
  PairFold.top backend.hashPair zeroHash (stored.map fun item => backend.hash item.chunk)

structure Layout where
  config : WarpWriterConfig
  salt : Vector UInt8 16
  files : ℕ
  stored : List StoredChunk
  tableBytes : Bytes

namespace Layout

def indexOffset (layout : Layout) : ℕ := Header.HEADER_SIZE + (payload layout.stored).length

def tableOffset (layout : Layout) : ℕ :=
  layout.indexOffset + layout.stored.length * ChunkEntry.SIZE

def header (layout : Layout) : Header :=
  { progressHeader layout.config layout.salt layout.files layout.stored with
    merkleRoot := rootOf backend layout.stored
    indexOffset := UInt64.ofNat layout.indexOffset
    indexSize := UInt64.ofNat (layout.stored.length * ChunkEntry.SIZE)
    fileTableOffset := UInt64.ofNat layout.tableOffset
    fileTableSize := UInt64.ofNat layout.tableBytes.length }

def image (layout : Layout) : Bytes :=
  (layout.header backend).toBytes ++ (payload layout.stored ++
    (ChunkIndex.toBytes (entriesFrom backend Header.HEADER_SIZE layout.stored) ++
      layout.tableBytes))

end Layout

theorem payload_append (first second : List StoredChunk) :
    payload (first ++ second) = payload first ++ payload second := List.flatMap_append

@[simp] theorem length_entriesFrom (offset : ℕ) (stored : List StoredChunk) :
    (entriesFrom backend offset stored).length = stored.length := by
  induction stored generalizing offset with
  | nil => rfl
  | cons item rest ih => simp [entriesFrom, ih]

theorem entriesFrom_append (offset : ℕ) (first second : List StoredChunk) :
    entriesFrom backend offset (first ++ second) =
      entriesFrom backend offset first ++
        entriesFrom backend (offset + (payload first).length) second := by
  induction first generalizing offset with
  | nil => rfl
  | cons item rest ih => simp [entriesFrom, payload, ih, Nat.add_assoc]

theorem tableFrom_append (start : ℕ) (first second : List SourceFile) :
    tableFrom backend config start (first ++ second) =
      tableFrom backend config start first ++
        tableFrom backend config (start + (allChunks config first).length) second := by
  induction first generalizing start with
  | nil => rfl
  | cons source rest ih => simp [tableFrom, allChunks, ih, Nat.add_assoc]

/-- The stored form of a chunk decodes to it. -/
def Decodes (item : StoredChunk) : Prop :=
  ∃ compressed, (match config.encryptionKey with
      | some key => backend.decrypt key item.stored = .ok compressed
      | none => compressed = item.stored) ∧
    if item.flags &&& 0x01 ≠ 0 then
      backend.decompress (WarpReader.decompressorFor config.compression) compressed = .ok item.chunk
    else compressed = item.chunk

/-- The stored form of a chunk decodes to it, and both have 32-bit lengths. -/
structure StoredChunk.Sound (item : StoredChunk) : Prop where
  decodes : Decodes backend config item
  storedFits : item.stored.length < 2 ^ 32
  chunkFits : item.chunk.length < 2 ^ 32

/-- A chunk and every form it may be stored in have 32-bit lengths. -/
def FitsU32 (chunk : Bytes) : Prop :=
  chunk.length < 2 ^ 32 ∧
    ∀ nonce stored flags, storeChunk backend (compressorFor config.compression)
      config.encryptionKey nonce chunk = .ok (stored, flags) → stored.length < 2 ^ 32

variable {backend config salt}

theorem decompressorFor_eq {compression : Compression} {codec : Codec}
    (chosen : compressorFor compression = some codec) :
    WarpReader.decompressorFor compression = codec := by
  cases compression <;> cases chosen <;> rfl

variable (config) in
/-- What `compressChunk` returns is recovered by the decompressor, if the flags say
so. -/
theorem compressChunk_spec (laws : backend.RoundTrips) (chunk : Bytes) :
    if (compressChunk backend (compressorFor config.compression) chunk).2 &&& 0x01 ≠ 0 then
      backend.decompress (WarpReader.decompressorFor config.compression)
        (compressChunk backend (compressorFor config.compression) chunk).1 = .ok chunk
    else (compressChunk backend (compressorFor config.compression) chunk).1 = chunk := by
  unfold compressChunk
  cases chosen : compressorFor config.compression with
  | none => simp
  | some codec =>
    rw [decompressorFor_eq chosen]
    cases result : backend.compress codec chunk with
    | error message => simp [result]
    | ok compressed =>
      simp only [result]
      by_cases smaller : compressed.length < chunk.length
      · rw [if_pos smaller]
        simpa using laws.decompress codec chunk compressed result
      · rw [if_neg smaller]
        simp

variable (config) in
theorem storeChunk_spec (laws : backend.RoundTrips) (nonce : Nonce) (chunk : Bytes) :
    ∃ stored flags, storeChunk backend (compressorFor config.compression) config.encryptionKey
        nonce chunk = .ok (stored, flags) ∧ Decodes backend config ⟨chunk, stored, flags⟩ := by
  have recovered := compressChunk_spec config laws chunk
  unfold storeChunk Decodes
  cases config.encryptionKey with
  | none => exact ⟨_, _, rfl, _, rfl, recovered⟩
  | some key =>
    obtain ⟨encrypted, success, decrypts⟩ := laws.decrypt key nonce
      (compressChunk backend (compressorFor config.compression) chunk).1
    refine ⟨encrypted, _, ?_, _, decrypts, recovered⟩
    simp only [success]
    rfl

structure Wrote (backend : Backend) (config : WarpWriterConfig) (salt : Vector UInt8 16)
    (sources : List SourceFile) (stored : List StoredChunk) (writer : WarpWriter) : Prop where
  file : ByteFile.Appends Header.HEADER_SIZE (payload stored) writer.file
  header : writer.header = progressHeader config salt sources.length stored
  index : writer.chunkIndex = entriesFrom backend Header.HEADER_SIZE stored
  table : writer.fileTable = fileTableOf backend config sources
  hashes : writer.chunkHashes = stored.map fun item => backend.hash item.chunk
  offset : writer.currentOffset = UInt64.ofNat (Header.HEADER_SIZE + (payload stored).length)
  configured : writer.config = config
  compressor : writer.compressor = compressorFor config.compression

variable (backend config salt) in
theorem wrote_createWithConfig :
    Wrote backend config salt [] [] (createWithConfig config salt) where
  file := ByteFile.appends_seek _
  header := by
    unfold progressHeader createWithConfig initialHeader
    dsimp only
    split <;> rfl
  index := rfl
  table := rfl
  hashes := rfl
  offset := rfl
  configured := rfl
  compressor := rfl

theorem toUInt64_ofNat {value : ℕ} (fits : value < 2 ^ 32) :
    (UInt32.ofNat value).toUInt64 = UInt64.ofNat value := by
  apply UInt64.toNat_inj.mp
  rw [UInt32.toNat_toUInt64, UInt32.toNat_ofNat_of_lt' fits,
    toNat_ofNat_of_lt' (fits.trans (by decide))]

variable {sources : List SourceFile} {stored : List StoredChunk} {writer : WarpWriter}

section
variable (nonces : ℕ → Nonce) (laws : backend.RoundTrips)
include nonces laws

variable (wrote : Wrote backend config salt sources stored writer)
include wrote

theorem Wrote.addChunk {chunk : Bytes} (fits : FitsU32 backend config chunk) :
    ∃ item next, WarpWriter.addChunk backend nonces writer chunk = .ok next ∧
      item.chunk = chunk ∧ item.Sound backend config ∧
      Wrote backend config salt sources (stored ++ [item]) next := by
  obtain ⟨bytes, flags, success, decodes⟩ := storeChunk_spec config laws
    (nonces writer.chunkIndex.length) chunk
  have storedFits : bytes.length < 2 ^ 32 := fits.2 _ _ _ success
  have length : (payload (stored ++ [⟨chunk, bytes, flags⟩])).length =
      (payload stored).length + bytes.length := by simp [payload]
  refine ⟨⟨chunk, bytes, flags⟩, appendChunk backend writer chunk bytes flags, ?_, rfl,
    ⟨decodes, storedFits, fits.1⟩, ?_⟩
  · unfold WarpWriter.addChunk
    rw [wrote.configured, wrote.compressor, success]
    rfl
  · refine ⟨?_, ?_, ?_, wrote.table, ?_, ?_, wrote.configured, wrote.compressor⟩ <;>
      dsimp only [appendChunk]
    · rw [payload_append]
      simpa [payload] using wrote.file.writeAll bytes
    · simp only [wrote.header, progressHeader, toUInt64_ofNat fits.1, toUInt64_ofNat storedFits,
        length, ofNat_add, List.length_append, List.length_singleton, List.map_append,
        List.sum_append, List.map_cons, List.map_nil, List.sum_singleton]
      rfl
    · rw [entriesFrom_append, wrote.index, wrote.offset]
      rfl
    · rw [wrote.hashes, List.map_append]
      rfl
    · simp only [wrote.offset, toUInt64_ofNat storedFits, length, ← ofNat_add, Nat.add_assoc]

theorem Wrote.addChunks (parts : List Bytes) (fits : ∀ chunk ∈ parts, FitsU32 backend config chunk) :
    ∃ items next, parts.foldlM (WarpWriter.addChunk backend nonces) writer = .ok next ∧
      items.map StoredChunk.chunk = parts ∧ (∀ item ∈ items, item.Sound backend config) ∧
      Wrote backend config salt sources (stored ++ items) next := by
  induction parts generalizing stored writer with
  | nil => exact ⟨[], writer, rfl, rfl, by simp, by simpa using wrote⟩
  | cons chunk rest ih =>
    obtain ⟨item, next, added, rfl, sound, wroteNext⟩ :=
      wrote.addChunk nonces laws (fits chunk List.mem_cons_self)
    obtain ⟨items, last, addedRest, rfl, soundRest, wroteLast⟩ :=
      ih wroteNext (List.forall_mem_of_forall_mem_cons fits)
    refine ⟨item :: items, last, ?_, rfl, ?_, by simpa using wroteLast⟩
    · rw [List.foldlM_cons, added]
      exact addedRest
    · exact List.forall_mem_cons.mpr ⟨sound, soundRest⟩

theorem Wrote.addFile (source : SourceFile)
    (fits : ∀ chunk ∈ chunks config source.content, FitsU32 backend config chunk)
    (given : stored.map StoredChunk.chunk = allChunks config sources) :
    ∃ items next, WarpWriter.addFile backend nonces writer source = .ok next ∧
      (stored ++ items).map StoredChunk.chunk = allChunks config (sources ++ [source]) ∧
      (∀ item ∈ items, item.Sound backend config) ∧
      Wrote backend config salt (sources ++ [source]) (stored ++ items) next := by
  obtain ⟨items, next, added, same, sound, wroteNext⟩ :=
    wrote.addChunks nonces laws (chunks config source.content) fits
  have count : stored.length = (allChunks config sources).length := by
    rw [← given, List.length_map]
  have countItems : items.length = (chunks config source.content).length := by
    rw [← same, List.length_map]
  have content : (chunks config source.content).flatten = source.content :=
    Warp.Io.SeqCdcChunker.flatten_chunk _ _
  refine ⟨items, appendFile backend next writer.chunkIndex.length source source.content, ?_, ?_,
    sound, ?_⟩
  · unfold WarpWriter.addFile
    dsimp only
    rw [wrote.configured, added, content]
    rfl
  · rw [List.map_append, given, same]
    simp [allChunks]
  · refine ⟨wroteNext.file, ?_, wroteNext.index, ?_, wroteNext.hashes, wroteNext.offset,
      wroteNext.configured, wroteNext.compressor⟩ <;> dsimp only [appendFile]
    · simp only [wroteNext.header, progressHeader, List.length_append, List.length_singleton, ofNat_add]
      rfl
    · rw [wroteNext.table, wrote.index, wroteNext.index, length_entriesFrom, length_entriesFrom,
        List.length_append, countItems, count, fileTableOf, fileTableOf, tableFrom_append,
        Nat.zero_add]
      rfl

theorem Wrote.addFiles (more : List SourceFile)
    (fits : ∀ chunk ∈ allChunks config more, FitsU32 backend config chunk)
    (given : stored.map StoredChunk.chunk = allChunks config sources)
    (sound : ∀ item ∈ stored, item.Sound backend config) :
    ∃ items next, more.foldlM (WarpWriter.addFile backend nonces) writer = .ok next ∧
      items.map StoredChunk.chunk = allChunks config (sources ++ more) ∧
      (∀ item ∈ items, item.Sound backend config) ∧
      Wrote backend config salt (sources ++ more) items next := by
  induction more generalizing sources stored writer with
  | nil =>
    rw [List.append_nil]
    exact ⟨stored, writer, rfl, given, sound, wrote⟩
  | cons source rest ih =>
    obtain ⟨items, next, added, givenNext, soundNext, wroteNext⟩ :=
      wrote.addFile nonces laws source
        (fun chunk member => fits chunk (List.mem_append_left _ member)) given
    obtain ⟨all, last, addedRest, givenAll, soundAll, wroteAll⟩ :=
      ih wroteNext (fun chunk member => fits chunk (List.mem_append_right _ member)) givenNext
        (fun item member => (List.mem_append.mp member).elim (sound item) (soundNext item))
    rw [List.append_assoc, List.singleton_append] at givenAll wroteAll
    refine ⟨all, last, ?_, givenAll, soundAll, wroteAll⟩
    rw [List.foldlM_cons, added]
    exact addedRest

end

variable (salt) in
/-- **The writer writes the layout.** Files whose chunks fit are written as the image
of sound stored forms of them. -/
theorem writeArchive_eq_image (nonces : ℕ → Nonce) (laws : backend.RoundTrips)
    (sources : List SourceFile)
    (fits : ∀ chunk ∈ allChunks config sources, FitsU32 backend config chunk)
    {tableBytes : Bytes}
    (serialized : backend.serializeTable (fileTableOf backend config sources) = .ok tableBytes) :
    ∃ stored, stored.map StoredChunk.chunk = allChunks config sources ∧
      (∀ item ∈ stored, item.Sound backend config) ∧
      writeArchive backend config salt nonces sources =
        .ok (Layout.image backend ⟨config, salt, sources.length, stored, tableBytes⟩) := by
  obtain ⟨stored, writer, added, given, sound, wrote⟩ :=
    Wrote.addFiles nonces laws (wrote_createWithConfig backend config salt) sources fits rfl
      (by simp)
  rw [List.nil_append] at given wrote
  refine ⟨stored, given, sound, ?_⟩
  have indexBytes : (ChunkIndex.toBytes writer.chunkIndex).length =
      stored.length * ChunkEntry.SIZE := by
    rw [wrote.index, ChunkIndex.length_toBytes, length_entriesFrom]
  have root : (MerkleTree.fromLeaves backend.hashPair zeroHash
      (if writer.chunkHashes.isEmpty then [zeroHash] else writer.chunkHashes)).root zeroHash =
      rootOf backend stored := by
    rw [MerkleTree.root_fromLeaves, rootOf, wrote.hashes]
    cases stored with
    | nil => rfl
    | cons item rest => rfl
  have file := (wrote.file.writeAll (ChunkIndex.toBytes writer.chunkIndex)).writeAll tableBytes
  unfold writeArchive
  rw [added]
  change finish backend writer = _
  have written := file.writeFront (Header.length_toBytes
    (Layout.header backend ⟨config, salt, sources.length, stored, tableBytes⟩))
  unfold finish
  dsimp only
  rw [wrote.table, serialized, root, indexBytes, wrote.header, wrote.offset, ← ofNat_add]
  refine congrArg Except.ok (written.trans ?_)
  rw [wrote.index, Layout.image, List.append_assoc]

end Warp.Format
