import Mathlib.Algebra.Order.BigOperators.Group.List
import Warp.Format.Layout
import Warp.Format.Sections

/-! # Archives read back

Opening the layout of an archive and reading its chunks gives back the chunks it was
laid out from, in either build (`Layout.readChunk_eq`). With what the
writer writes, every archive reads back as the files it was written from
(`archive_round_trip`).
-/

namespace Warp.Format

open WarpWriter WarpReader StoredChunk ChunkIndex UInt64 Vector

namespace Layout

variable (backend : Backend) (layout : Layout)

theorem length_image : (layout.image backend).length =
    layout.tableOffset + layout.tableBytes.length := by
  simp only [image, List.length_append, Header.length_toBytes, length_toBytes,
    length_entriesFrom, tableOffset, indexOffset]
  omega

theorem validate_header : (layout.header backend).validate = .ok () := by
  unfold header progressHeader initialHeader Header.validate
  dsimp only
  split <;> rfl

theorem encryption_header : (layout.header backend).encryption = layout.config.encryption := by
  unfold header progressHeader initialHeader
  dsimp only
  split <;> rfl

theorem compression_header : (layout.header backend).compression = layout.config.compression := by
  unfold header progressHeader initialHeader
  dsimp only
  split <;> rfl

theorem headerOf_image
    (agree : layout.config.encryption = .chaCha20Poly1305 ↔ layout.config.encryptionKey.isSome) :
    HeaderOf (layout.image backend) layout.config.encryptionKey (layout.header backend) where
  large := by
    rw [length_image, tableOffset, indexOffset]
    omega
  parsed := by
    rw [image, Bytes.slice_append_self _ _ (Header.length_toBytes _).symm,
      Header.fromBytes_toBytes _ (layout.validate_header backend)]
  unlocked := by
    rw [encryption_header]
    cases chosen : layout.config.encryption with
    | none => exact Or.inl rfl
    | chaCha20Poly1305 => exact Or.inr (agree.mp chosen)

variable {backend layout} (fits : (layout.image backend).length < 2 ^ 64)
include fits in
/-- The sections of the archive start and end at 64-bit positions. -/
theorem positions_lt : layout.indexOffset < 2 ^ 64 ∧ layout.tableOffset < 2 ^ 64 ∧
    layout.tableBytes.length < 2 ^ 64 ∧ layout.stored.length < 2 ^ 64 ∧
    layout.stored.length * ChunkEntry.SIZE < 2 ^ 64 := by
  rw [length_image, tableOffset, ChunkEntry.SIZE] at fits
  rw [tableOffset, ChunkEntry.SIZE]
  omega

include fits in
theorem indexOf_image : IndexOf (layout.image backend) (layout.header backend)
    (entriesFrom backend Header.HEADER_SIZE layout.stored) := by
  obtain ⟨indexFits, tableFits, -, countFits, sizeFits⟩ := positions_lt fits
  have start : (layout.header backend).indexOffset.toNat = layout.indexOffset :=
    toNat_ofNat_of_lt' indexFits
  have size : (layout.header backend).indexSize.toNat =
      layout.stored.length * ChunkEntry.SIZE := toNat_ofNat_of_lt' sizeFits
  refine ⟨?_, ?_, ?_⟩
  · rw [InFile, start, size, length_image]
    exact ⟨tableFits, Nat.le_add_right _ _⟩
  · rw [image, ← List.append_assoc, sectionAt_append, fromBytes_toBytes]
    · rw [start, List.length_append, Header.length_toBytes, indexOffset]
    · rw [size, length_toBytes, length_entriesFrom]
  · rw [length_entriesFrom]
    exact (toNat_ofNat_of_lt' countFits).symm

include fits in
theorem tableOf_image {table : List FileEntry}
    (deserialized : backend.deserializeTable layout.tableBytes = .ok table)
    (counted : table.length = layout.files) (filesFit : layout.files < 2 ^ 64) :
    TableOf backend (layout.image backend) (layout.header backend) table := by
  obtain ⟨-, tableFits, sizeFits, -, -⟩ := positions_lt fits
  have start : (layout.header backend).fileTableOffset.toNat = layout.tableOffset :=
    toNat_ofNat_of_lt' tableFits
  have size : (layout.header backend).fileTableSize.toNat = layout.tableBytes.length :=
    toNat_ofNat_of_lt' sizeFits
  have sections : layout.image backend = (layout.header backend).toBytes ++
      payload layout.stored ++ toBytes
        (entriesFrom backend Header.HEADER_SIZE layout.stored) ++ (layout.tableBytes ++ []) := by
    simp [image]
  refine ⟨?_, ?_, ?_⟩
  · rw [length_image] at fits
    rw [InFile, start, size, length_image]
    exact ⟨fits, le_rfl⟩
  · rw [sections, sectionAt_append _ _ _ _ size, deserialized]
    rw [start, List.length_append, List.length_append, Header.length_toBytes,
      length_toBytes, length_entriesFrom, tableOffset, indexOffset]
  · rw [counted]
    exact (toNat_ofNat_of_lt' filesFit).symm

def reader (backend : Backend) (layout : Layout) (table : List FileEntry) : WarpReader where
  mmap := layout.image backend
  header := layout.header backend
  chunkIndex := entriesFrom backend Header.HEADER_SIZE layout.stored
  fileTable := table
  decompressor := decompressorFor layout.config.compression
  decryptionKey := layout.config.encryptionKey
  sparseTree := none

include fits in
theorem openInternal_image (profile : BuildProfile)
    (agree : layout.config.encryption = .chaCha20Poly1305 ↔ layout.config.encryptionKey.isSome)
    {table : List FileEntry} (deserialized : backend.deserializeTable layout.tableBytes = .ok table)
    (counted : table.length = layout.files) (filesFit : layout.files < 2 ^ 64) :
    openInternal backend profile (layout.image backend) layout.config.encryptionKey =
      .ok (layout.reader backend table) := by
  refine openInternal_eq_ok_iff.mpr ⟨_, _, table, headerOf_image backend layout agree,
    indexOf_image fits, tableOf_image fits deserialized counted filesFit, ?_⟩
  rw [reader, readerOf, compression_header]

variable (backend) in
theorem getElem?_entriesFrom (offset : ℕ) (before after : List StoredChunk) (item : StoredChunk) :
    (entriesFrom backend offset (before ++ item :: after))[before.length]? =
      some (item.entry backend (offset + (payload before).length)) := by
  rw [entriesFrom_append, List.getElem?_append_right (by simp), length_entriesFrom, Nat.sub_self]
  rfl

include fits in
theorem readRange_entry (profile : BuildProfile) (beyond : UInt64 → FormatError)
    {before after : List StoredChunk} {item : StoredChunk}
    (parts : layout.stored = before ++ item :: after) (storedFits : item.stored.length < 2 ^ 32) :
    readRange profile (layout.image backend)
      (item.entry backend (Header.HEADER_SIZE + (payload before).length)).offset
      (item.entry backend (Header.HEADER_SIZE + (payload before).length)).compressedSize.toUInt64
      beyond = .ok item.stored := by
  obtain ⟨indexFits, -⟩ := positions_lt fits
  have whole : payload layout.stored = payload before ++ (item.stored ++ payload after) := by
    rw [parts, payload_append]
    rfl
  have front : ((layout.header backend).toBytes ++ payload before).length =
      Header.HEADER_SIZE + (payload before).length := by
    rw [List.length_append, Header.length_toBytes]
  have bound : Header.HEADER_SIZE + (payload before).length + item.stored.length < 2 ^ 64 := by
    rw [indexOffset, whole, List.length_append, List.length_append] at indexFits
    omega
  have sections : layout.image backend = (layout.header backend).toBytes ++ payload before ++
      (item.stored ++ (payload after ++ (toBytes
        (entriesFrom backend Header.HEADER_SIZE layout.stored) ++ layout.tableBytes))) := by
    simp [image, whole]
  rw [sections]
  refine readRange_section _ _ _ ?_ ?_ (by rwa [front])
  · rw [front]
    exact toNat_ofNat_of_lt' ((Nat.le_add_right _ _).trans_lt bound)
  · rw [entry, toUInt64_ofNat storedFits]
    exact toNat_ofNat_of_lt' ((Nat.le_add_left _ _).trans_lt bound)

theorem decode_reader (table : List FileEntry) (index offset : ℕ) {item : StoredChunk}
    (decodes : Decodes backend layout.config item) :
    ∃ compressed,
      decryptChunk backend (layout.reader backend table) index item.stored = .ok compressed ∧
      decompressChunk backend (layout.reader backend table) (item.entry backend offset)
        compressed = .ok item.chunk := by
  obtain ⟨compressed, decrypted, decompressed⟩ := decodes
  refine ⟨compressed, ?_, ?_⟩
  · unfold decryptChunk reader
    cases chosen : layout.config.encryptionKey with
    | none =>
      rw [chosen] at decrypted
      rw [decrypted]
    | some key =>
      rw [chosen] at decrypted
      simp only [decrypted, Except.mapError, Outcome.ofExcept]
  · unfold decompressChunk ChunkEntry.isCompressed
    rw [entry_flags]
    by_cases flagged : item.flags &&& 0x01 ≠ 0
    · rw [if_pos flagged] at decompressed
      rw [if_pos (decide_eq_true flagged)]
      simp only [reader, decompressed, Except.mapError, Outcome.ofExcept]
    · rw [if_neg flagged] at decompressed
      rw [if_neg (mt of_decide_eq_true flagged), decompressed]

include fits in
/-- **Every chunk is read back.** -/
theorem readChunk_eq (profile : BuildProfile) (table : List FileEntry) {index : ℕ}
    {item : StoredChunk} (found : layout.stored[index]? = some item)
    (sound : item.Sound backend layout.config) :
    readChunk backend profile (layout.reader backend table) index = .ok item.chunk := by
  obtain ⟨inside, found⟩ := List.getElem?_eq_some_iff.mp found
  have parts : layout.stored =
      layout.stored.take index ++ item :: layout.stored.drop (index + 1) := by
    rw [← found, List.getElem_cons_drop, List.take_append_drop]
  have entry := getElem?_entriesFrom backend Header.HEADER_SIZE
    (layout.stored.take index) (layout.stored.drop (index + 1)) item
  rw [← parts, List.length_take_of_le inside.le] at entry
  obtain ⟨compressed, decrypts, decompresses⟩ := decode_reader table index
    (Header.HEADER_SIZE + (payload (layout.stored.take index)).length) sound.decodes
  have size : item.chunk.length = (UInt32.ofNat item.chunk.length).toNat :=
    (UInt32.toNat_ofNat_of_lt' sound.chunkFits).symm
  have indexed : (layout.reader backend table).chunkIndex[index]? = _ := entry
  unfold readChunk
  simp only [indexed, Outcome.bind_eq]
  change Outcome.bind (readRange profile (layout.image backend) _ _ _) _ = _
  rw [readRange_entry fits profile _ parts sound.storedFits]
  simp only [Outcome.ok_bind, decrypts, decompresses, entry_originalSize,
    entry_hash, Outcome.require, if_pos size, implies_true, ↓reduceIte, Outcome.pure_eq]

variable (sound : ∀ item ∈ layout.stored, item.Sound backend layout.config)
include fits sound in
theorem forEach_readChunk (profile : BuildProfile) (table : List FileEntry)
    (before parts after : List Bytes)
    (given : layout.stored.map chunk = before ++ (parts ++ after)) :
    Outcome.forEach (readChunk backend profile (layout.reader backend table))
      (List.range' before.length parts.length) = .ok parts := by
  rw [Outcome.forEach_eq_ok_iff, List.forall₂_iff_get]
  refine ⟨List.length_range', fun place _ inside => ?_⟩
  have found : (layout.stored.map chunk)[before.length + place]? =
      some (parts.get ⟨place, inside⟩) := by
    rw [given, List.getElem?_append_right (Nat.le_add_right _ _), Nat.add_sub_cancel_left,
      List.getElem?_append_left inside]
    exact List.getElem?_eq_getElem inside
  rw [List.getElem?_map, Option.map_eq_some_iff] at found
  obtain ⟨item, at_place, chunk⟩ := found
  rw [List.get_eq_getElem, List.getElem_range', Nat.one_mul, ← chunk]
  exact readChunk_eq fits profile table at_place (sound item (List.mem_of_getElem? at_place))

include fits sound in
theorem readFileData_eq (profile : BuildProfile) (table : List FileEntry)
    {before parts after : List Bytes} {entry : FileEntry}
    (given : layout.stored.map chunk = before ++ (parts ++ after))
    (start : entry.chunkStart.toNat = before.length)
    (stop : entry.chunkEnd.toNat = before.length + parts.length) :
    readFileData backend profile (layout.reader backend table) entry = .ok parts.flatten := by
  unfold readFileData
  rw [start, stop, Nat.add_sub_cancel_left, forEach_readChunk fits sound profile table
    before parts after given]
  rfl

include fits sound in
theorem verify_reader (profile : BuildProfile) (table : List FileEntry) :
    verify backend profile (layout.reader backend table) = .ok true := by
  have data : Outcome.forEach (readChunk backend profile (layout.reader backend table))
      (List.range (layout.reader backend table).chunkIndex.length) =
        .ok (layout.stored.map chunk) := by
    have read := forEach_readChunk fits sound profile table [] _ [] (List.append_nil _).symm
    rw [List.length_nil, List.length_map, ← List.range_eq_range'] at read
    rw [reader, length_entriesFrom]
    exact read
  unfold verify
  rw [data]
  simp only [Outcome.bind_eq, Outcome.ok_bind, Outcome.pure_eq, MerkleTree.root_fromLeaves,
    List.map_map]
  exact congrArg Outcome.ok (decide_eq_true rfl)

end Layout

open Layout

variable {source : SourceFile}

section Table
variable {backend : Backend} {config : WarpWriterConfig}

theorem length_tableFrom (start : ℕ) (sources : List SourceFile) :
    (tableFrom backend config start sources).length = sources.length := by
  induction sources generalizing start with
  | nil => rfl
  | cons source rest ih => simp [tableFrom, ih]

theorem map_tableFrom {Field : Type*} (read : FileEntry → Field) (given : SourceFile → Field)
    (same : ∀ start source, read (source.entry backend config start) = given source)
    (start : ℕ) (sources : List SourceFile) :
    (tableFrom backend config start sources).map read = sources.map given := by
  induction sources generalizing start with
  | nil => rfl
  | cons source rest ih => simp [tableFrom, same, ih]

theorem getByPath_fileTableOf {before after : List SourceFile}
    (distinct : ((before ++ source :: after).map SourceFile.archivePath).Nodup) :
    FileTable.getByPath (fileTableOf backend config (before ++ source :: after))
        source.archivePath =
      some (source.entry backend config (allChunks config before).length) := by
  have fresh : ∀ entry ∈ tableFrom backend config 0 before,
      entry.path ≠ source.archivePath := by
    intro entry member same
    have listed : entry.path ∈ before.map SourceFile.archivePath := by
      rw [← map_tableFrom FileEntry.path SourceFile.archivePath (fun _ _ => rfl) 0 before]
      exact List.mem_map_of_mem member
    rw [List.map_append, List.nodup_append] at distinct
    exact distinct.2.2 _ listed _ (by simp) same
  unfold FileTable.getByPath fileTableOf
  rw [tableFrom_append, List.find?_append,
    List.find?_eq_none.mpr fun entry member => by simpa using fresh entry member, Nat.zero_add,
    tableFrom, List.find?_cons_of_pos (by simp [SourceFile.entry])]
  rfl

variable (config) in
theorem flatten_allChunks (sources : List SourceFile) :
    (allChunks config sources).flatten = sources.flatMap SourceFile.content := by
  induction sources with
  | nil => rfl
  | cons source rest ih =>
    have content : (chunks config source.content).flatten = source.content :=
      Warp.Io.SeqCdcChunker.flatten_chunk _ _
    rw [allChunks, List.flatMap_cons, List.flatten_append, content, List.flatMap_cons, ← ih, allChunks]

end Table

structure ReadsBack (backend : Backend) (profile : BuildProfile) (config : WarpWriterConfig)
    (sources : List SourceFile) (reader : WarpReader) : Prop where
  list : (reader.fileTable.map fun entry => (entry.path, entry.size.toNat, entry.mode,
      entry.mtime)) =
    sources.map fun source => (source.archivePath, source.content.length, source.mode, source.mtime)
  data : ∀ source ∈ sources, ∃ entry,
    FileTable.getByPath reader.fileTable source.archivePath = some entry ∧
      readFileData backend profile reader entry = .ok source.content
  verified : verify backend profile reader = .ok true
  files : reader.header.totalFiles.toNat = sources.length
  chunks : reader.header.totalChunks.toNat = (allChunks config sources).length
  bytes : reader.header.originalSize.toNat = (sources.map fun source => source.content.length).sum

section ReadBack
variable {backend : Backend} {config : WarpWriterConfig} {salt : Vector UInt8 16}
  {sources : List SourceFile} {stored : List StoredChunk} {tableBytes : Bytes}
variable (fits : (Layout.image backend ⟨config, salt, sources.length, stored, tableBytes⟩).length <
    2 ^ 64)
  (given : stored.map StoredChunk.chunk = allChunks config sources)
  (sound : ∀ item ∈ stored, item.Sound backend config)
include fits given sound

theorem readFileData_source (profile : BuildProfile) {before after : List SourceFile}
    (listed : sources = before ++ source :: after) :
    readFileData backend profile
        (reader backend ⟨config, salt, sources.length, stored, tableBytes⟩
          (fileTableOf backend config sources))
        (source.entry backend config (allChunks config before).length) = .ok source.content := by
  have parts : stored.map chunk = allChunks config before ++
      (chunks config source.content ++ allChunks config after) := by
    rw [given, listed]
    simp [allChunks]
  have inside : (allChunks config before).length + (chunks config source.content).length ≤
      stored.length := by
    rw [← List.length_map chunk, parts, List.length_append, List.length_append]
    omega
  have stopFits := inside.trans_lt (positions_lt fits).2.2.2.1
  rw [readFileData_eq fits sound profile _ parts
    (toNat_ofNat_of_lt' ((Nat.le_add_right _ _).trans_lt stopFits))
    (toNat_ofNat_of_lt' stopFits)]
  exact congrArg Outcome.ok (Warp.Io.SeqCdcChunker.flatten_chunk _ _)

theorem readsBack_layout (profile : BuildProfile)
    (distinct : (sources.map SourceFile.archivePath).Nodup) (count : sources.length < 2 ^ 64)
    (total : (sources.map fun source => source.content.length).sum < 2 ^ 64) :
    ReadsBack backend profile config sources
      (reader backend ⟨config, salt, sources.length, stored, tableBytes⟩
        (fileTableOf backend config sources)) := by
  have chunkCount : (allChunks config sources).length = stored.length := by
    rw [← given, List.length_map]
  have lengths : (stored.map fun item => item.chunk.length).sum =
      (sources.map fun source => source.content.length).sum := by
    have flat := congrArg List.length (flatten_allChunks config sources)
    rw [List.length_flatten, List.length_flatMap, ← given, List.map_map] at flat
    exact flat
  refine ⟨?_, ?_, verify_reader fits sound profile _, toNat_ofNat_of_lt' count,
    ?_, ?_⟩
  · refine (map_tableFrom _ (fun source => (source.archivePath,
      (ofNat source.content.length).toNat, source.mode, source.mtime))
      (fun _ _ => rfl) 0 sources).trans (List.map_congr_left ?_)
    intro source member
    have size : (ofNat source.content.length).toNat = source.content.length :=
      toNat_ofNat_of_lt' ((List.le_sum_of_mem (List.mem_map_of_mem member)).trans_lt total)
    rw [size]
  · intro source member
    obtain ⟨before, after, listed⟩ := List.append_of_mem member
    refine ⟨_, ?_, readFileData_source fits given sound profile listed⟩
    rw [listed] at distinct
    exact listed ▸ getByPath_fileTableOf distinct
  · rw [chunkCount]
    exact toNat_ofNat_of_lt' (positions_lt fits).2.2.2.1
  · rw [← lengths]
    exact toNat_ofNat_of_lt' (lengths ▸ total)

end ReadBack

/-- **Archives round trip.** Writing files with distinct paths succeeds, and in either
build the archive opens with the key it was written with and shows the files it was
written from. -/
theorem archive_round_trip (backend : Backend) (laws : backend.RoundTrips)
    (profile : BuildProfile) (config : WarpWriterConfig)
    (agree : config.encryption = .chaCha20Poly1305 ↔ config.encryptionKey.isSome)
    (salt : Vector UInt8 16) (nonces : ℕ → Nonce) (sources : List SourceFile)
    (distinct : (sources.map SourceFile.archivePath).Nodup)
    (fits : ∀ chunk ∈ allChunks config sources, FitsU32 backend config chunk)
    (table : ∃ bytes, backend.serializeTable (fileTableOf backend config sources) = .ok bytes ∧
      backend.deserializeTable bytes = .ok (fileTableOf backend config sources))
    (count : sources.length < 2 ^ 64)
    (total : (sources.map fun source => source.content.length).sum < 2 ^ 64) :
    ∃ archive, writeArchive backend config salt nonces sources = .ok archive ∧
      (archive.length < 2 ^ 64 → ∃ reader,
        openInternal backend profile archive config.encryptionKey = .ok reader ∧
          ReadsBack backend profile config sources reader) := by
  obtain ⟨tableBytes, serialized, deserialized⟩ := table
  obtain ⟨stored, given, sound, written⟩ :=
    writeArchive_eq_image salt nonces laws sources fits serialized
  refine ⟨_, written, fun small => ?_⟩
  have opened := openInternal_image small profile agree deserialized
    (length_tableFrom 0 sources) count
  exact ⟨_, opened, readsBack_layout small given sound profile distinct count total⟩

namespace RoundTripSample

/-- Libraries that compress one string, and encrypt by putting the nonce in front. -/
def libraries : Backend where
  hash data := Bytes.toVector 32 (data ++ [UInt8.ofNat data.length])
  compress
    | _, [7, 7, 7, 7] => .ok [1]
    | _, data => .ok (0 :: data)
  decompress
    | _, [1] => .ok [7, 7, 7, 7]
    | _, 0 :: data => .ok data
    | _, _ => .error "malformed"
  encrypt _ nonce data := .ok (nonce.toList ++ data)
  decrypt _ data := .ok (data.drop 12)
  serializeTable entries := .ok (entries.map fun entry => UInt8.ofNat entry.path.length)
  deserializeTable _ := .error "malformed"

def config : WarpWriterConfig where
  compression := .zstd
  chunkSize := 8
  minChunkSize := 4
  maxChunkSize := 6
  encryption := .chaCha20Poly1305
  encryptionKey := some (Vector.replicate 32 9)

def sources : List SourceFile :=
  [⟨"a", [3, 2, 1, 3, 2, 1, 0, 5], 0o644, 5⟩, ⟨"dir/b", [7, 7, 7, 7], 0o600, 6⟩,
    ⟨"empty", [], 0o644, 7⟩]

def backend : Backend :=
  { libraries with deserializeTable := fun _ => .ok (fileTableOf libraries config sources) }

theorem roundTrips : backend.RoundTrips where
  decompress codec data compressed success := by
    simp only [backend, libraries] at success ⊢
    split at success <;> cases success <;> rfl
  decrypt _ nonce data := ⟨nonce.toList ++ data, rfl, by simp [backend, libraries]⟩

theorem allChunks_sources : allChunks config sources =
    [[3, 2, 1, 3, 2, 1], [0, 5], [7, 7, 7, 7]] := by decide

theorem fitsU32 : ∀ chunk ∈ allChunks config sources, FitsU32 backend config chunk := by
  rw [allChunks_sources]
  simp only [List.forall_mem_cons, List.not_mem_nil, false_imp_iff, implies_true, and_true]
  refine ⟨⟨by decide, ?_⟩, ⟨by decide, ?_⟩, ⟨by decide, ?_⟩⟩ <;>
    · rintro nonce stored flags ⟨⟩
      simp only [List.length_append, length_toList]
      decide

end RoundTripSample

open RoundTripSample

/-- An encrypted archive is read back. -/
theorem archive_round_trip_sample : ∃ archive reader,
    writeArchive RoundTripSample.backend RoundTripSample.config (Vector.replicate 16 0)
      (fun _ => Vector.replicate 12 4) RoundTripSample.sources = .ok archive ∧
    openInternal RoundTripSample.backend .release archive (some (Vector.replicate 32 9)) =
      .ok reader ∧
    ReadsBack RoundTripSample.backend .release RoundTripSample.config RoundTripSample.sources
      reader := by
  obtain ⟨archive, written, readable⟩ := archive_round_trip backend
    roundTrips .release config (by decide) (replicate 16 0)
    (fun _ => replicate 12 4) sources (by decide) fitsU32
    ⟨_, rfl, rfl⟩ (by decide) (by decide)
  have size : (writeArchive backend config
      (replicate 16 0) (fun _ => replicate 12 4) sources).map
        List.length = .ok 472 := by decide +kernel
  rw [written] at size
  obtain ⟨reader, opened, shows⟩ := readable ((Except.ok.inj size).trans_lt (by decide))
  exact ⟨archive, reader, written, opened, shows⟩

end Warp.Format
