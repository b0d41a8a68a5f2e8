import Warp.Format.HostileArchive

/-! # The two verifiers of an archive

Full verification compares the Merkle root of the data with the header. Fast verification compares
the hash of one chunk with the index (`verifyChunkFast_iff`), which is never compared with the
header. The two agree on an archive whose header has the root of its index, and otherwise only if
both reject its data (`verifiers_agree_iff`).
-/

namespace Warp.Format

open WarpReader Outcome Header

variable {index : ℕ}

section Verifiers
variable (backend : Backend) (profile : BuildProfile)

def indexHashes (reader : WarpReader) : List ChunkHash := reader.chunkIndex.map ChunkEntry.hash

def merkleRootOf (hashes : List ChunkHash) : ChunkHash :=
  PairFold.top backend.hashPair zeroHash hashes

/-- Every chunk can be read, and these are their data. -/
def ReadsAll (reader : WarpReader) (data : List Bytes) : Prop :=
  List.Forall₂ (fun index chunk => readChunk backend profile reader index = .ok chunk)
    (List.range reader.chunkIndex.length) data

def afterFast (reader : WarpReader) (queries : List ℕ) : WarpReader :=
  queries.foldl (fun current index =>
    match verifyChunkFast backend profile current index with
    | .ok (_, next) => next
    | _ => current) reader

def AcceptsFast (reader : WarpReader) : Prop :=
  ∀ index < reader.chunkIndex.length, ∃ next,
    verifyChunkFast backend profile reader index = .ok (true, next)

def withTree (reader : WarpReader) (tree : SparseMerkleTree ChunkHash) : WarpReader :=
  { reader with sparseTree := some tree }

/-- A reader that differs from another one by a sparse tree over the hashes in the
index. -/
structure Prepared (reader current : WarpReader) : Prop where
  tree : ∃ tree, current = withTree reader tree ∧
    SparseMerkleTree.Faithful backend.hashPair zeroHash (indexHashes reader) tree

variable {backend profile} {reader current : WarpReader} {next : WarpReader} {data : List Bytes}

section
variable (prepared : Prepared backend reader current)
include prepared

theorem Prepared.chunkIndex :
    current.chunkIndex = reader.chunkIndex := by
  obtain ⟨tree, rfl, -⟩ := prepared
  rfl

omit prepared in
theorem verifyChunkFast_eq_ok_iff {tree : SparseMerkleTree ChunkHash} {valid : Bool} :
    verifyChunkFast backend profile (withTree reader tree) index = .ok (valid, next) ↔
      index < reader.chunkIndex.length ∧ ∃ chunk,
        readChunk backend profile reader index = .ok chunk ∧
        (tree.verifyChunk backend.hashPair zeroHash index (backend.hash chunk)).1 = valid ∧
        next = withTree reader
          (tree.verifyChunk backend.hashPair zeroHash index (backend.hash chunk)).2 := by
  simp only [verifyChunkFast, withTree, bind_eq, bind_eq_ok_iff, pure_eq,
    Outcome.ok.injEq, Prod.mk.injEq]
  constructor
  · rintro ⟨_, required, chunk, read, same, rfl⟩
    exact ⟨require_eq_ok_iff.mp required, chunk, read, same, rfl⟩
  · rintro ⟨inside, chunk, read, same, rfl⟩
    exact ⟨(), require_eq_ok_iff.mpr inside, chunk, read, same, rfl⟩

theorem verifyChunkFast_iff (index : ℕ) :
    (∃ next, verifyChunkFast backend profile current index = .ok (true, next)) ↔
      ∃ chunk, readChunk backend profile reader index = .ok chunk ∧
        (indexHashes reader)[index]? = some (backend.hash chunk) := by
  obtain ⟨tree, rfl, faithful⟩ := prepared
  simp only [verifyChunkFast_eq_ok_iff, SparseMerkleTree.verifyChunk_iff faithful]
  constructor
  · rintro ⟨next, -, chunk, read, listed, -⟩
    exact ⟨chunk, read, listed⟩
  · rintro ⟨chunk, read, listed⟩
    have inside : index < (indexHashes reader).length :=
      (List.getElem?_eq_some_iff.mp listed).1
    exact ⟨_, by simpa [indexHashes] using inside, chunk, read, listed, rfl⟩

theorem Prepared.verifyChunkFast {valid : Bool}
    (verified : verifyChunkFast backend profile current index = .ok (valid, next)) :
    Prepared backend reader next := by
  obtain ⟨tree, rfl, faithful⟩ := prepared
  obtain ⟨-, chunk, -, -, rfl⟩ := verifyChunkFast_eq_ok_iff.mp verified
  exact ⟨_, rfl, faithful.verifyChunk index (backend.hash chunk)⟩

variable (profile) in
theorem Prepared.afterFast (queries : List ℕ) :
    Prepared backend reader (afterFast backend profile current queries) := by
  induction queries generalizing current with
  | nil => exact prepared
  | cons index rest ih =>
    apply ih
    dsimp only
    split
    next valid next verified => exact prepared.verifyChunkFast verified
    next => exact prepared

omit prepared in
theorem prepared_of_opened {mmap : Bytes}
    (opened : openWithVerification backend profile mmap = .ok reader)
    (nonempty : reader.chunkIndex ≠ []) : Prepared backend reader reader := by
  simp only [openWithVerification, bind_eq, bind_eq_ok_iff, pure_eq, Outcome.ok.injEq] at opened
  obtain ⟨plain, -, built⟩ := opened
  unfold buildVerificationTree at built
  split_ifs at built with empty
  · subst built
    exact absurd (List.isEmpty_iff.mp empty) nonempty
  · subst built
    exact ⟨_, rfl, SparseMerkleTree.faithful_fromLeavesWithCacheSize _ _⟩

omit prepared in
theorem readsAll_iff : ReadsAll backend profile reader data ↔
    reader.chunkIndex.length = data.length ∧ ∀ index chunk, data[index]? = some chunk →
      readChunk backend profile reader index = .ok chunk := by
  rw [ReadsAll, List.forall₂_iff_get]
  constructor
  · rintro ⟨sameLength, reads⟩
    refine ⟨List.length_range.symm.trans sameLength, fun index chunk found => ?_⟩
    obtain ⟨inside, rfl⟩ := List.getElem?_eq_some_iff.mp found
    simpa using reads index (sameLength ▸ inside) inside
  · rintro ⟨sameLength, reads⟩
    refine ⟨List.length_range.trans sameLength, fun index _ inside => ?_⟩
    simpa using reads index _ (List.getElem?_eq_getElem inside)

theorem acceptsFast_iff :
    AcceptsFast backend profile current ↔
      ∃ data, ReadsAll backend profile reader data ∧
        data.map backend.hash = indexHashes reader := by
  have length : (indexHashes reader).length = reader.chunkIndex.length := List.length_map _
  simp only [AcceptsFast, prepared.chunkIndex, verifyChunkFast_iff prepared, readsAll_iff]
  constructor
  · intro accepts
    choose chunk read listed using accepts
    have found (index : ℕ) (inside : index < reader.chunkIndex.length) :
        (List.ofFn fun place : Fin reader.chunkIndex.length =>
          chunk place place.isLt)[index]? = some (chunk index inside) := by
      simp [inside]
    refine ⟨List.ofFn fun place : Fin reader.chunkIndex.length => chunk place place.isLt,
      ⟨List.length_ofFn.symm, ?_⟩, ?_⟩
    · intro index here at_index
      have inside : index < reader.chunkIndex.length := by
        simpa using (List.getElem?_eq_some_iff.mp at_index).1
      obtain rfl := Option.some.inj ((found index inside).symm.trans at_index)
      exact read index inside
    · apply List.ext_getElem?
      intro index
      by_cases inside : index < reader.chunkIndex.length
      · rw [List.getElem?_map, found index inside, Option.map_some, listed index inside]
      · rw [List.getElem?_eq_none (by simpa using inside),
          List.getElem?_eq_none (by rw [length]; exact not_lt.mp inside)]
  · rintro ⟨data, ⟨sameLength, reads⟩, hashes⟩ index inside
    have found := List.getElem?_eq_getElem (sameLength ▸ inside)
    refine ⟨_, reads index _ found, ?_⟩
    rw [← hashes, List.getElem?_map, found, Option.map_some]

end

/-- Full verification of data that can be read compares their root with the header. -/
theorem ReadsAll.verify_eq (reads : ReadsAll backend profile reader data) :
    verify backend profile reader = .ok (decide (merkleRootOf backend (data.map backend.hash) =
      reader.header.merkleRoot)) := by
  rw [verify, (forEach_eq_ok_iff ..).mpr reads]
  simp only [bind_eq, ok_bind, pure_eq, MerkleTree.root_fromLeaves, merkleRootOf]
  rfl

theorem verify_iff : verify backend profile reader = .ok true ↔
    ∃ data, ReadsAll backend profile reader data ∧
      merkleRootOf backend (data.map backend.hash) = reader.header.merkleRoot := by
  constructor
  · intro verified
    obtain ⟨data, read, -⟩ := bind_eq_ok_iff.mp verified
    have reads : ReadsAll backend profile reader data := (forEach_eq_ok_iff ..).mp read
    rw [reads.verify_eq] at verified
    exact ⟨data, reads, of_decide_eq_true (Outcome.ok.inj verified)⟩
  · rintro ⟨data, reads, same⟩
    rw [reads.verify_eq, decide_eq_true same]

theorem ReadsAll.unique {other : List Bytes} (reads : ReadsAll backend profile reader data)
    (readsOther : ReadsAll backend profile reader other) : data = other :=
  Outcome.ok.inj (((forEach_eq_ok_iff ..).mpr reads).symm.trans
    ((forEach_eq_ok_iff ..).mpr readsOther))

end Verifiers

/-- The index has the root in the header, or neither the index nor the header fits
the data. -/
def RootsConsistent (backend : Backend) (profile : BuildProfile) (reader : WarpReader) : Prop :=
  ∀ data, ReadsAll backend profile reader data →
    merkleRootOf backend (indexHashes reader) = reader.header.merkleRoot ∨
      (data.map backend.hash ≠ indexHashes reader ∧
        merkleRootOf backend (data.map backend.hash) ≠ reader.header.merkleRoot)

/-- **When the verifiers agree.** Let an archive with chunks be opened for
verification, and let no two different pairs of digests in the trees over its data
and over its index collide. Then, after any fast verifications, full verification
accepts exactly when fast verification accepts every chunk, if and only if all the
chunks that are there to read leave header and index consistent. -/
theorem verifiers_agree_iff (backend : Backend) (profile : BuildProfile) (mmap : Bytes)
    (reader : WarpReader) (opened : openWithVerification backend profile mmap = .ok reader)
    (nonempty : reader.chunkIndex ≠ [])
    (noCollision : ∀ data, ReadsAll backend profile reader data →
      PairFold.NoCollision backend.hashPair (data.map backend.hash) (indexHashes reader))
    (queries : List ℕ) :
    (verify backend profile reader = .ok true ↔
      AcceptsFast backend profile (afterFast backend profile reader queries)) ↔
      RootsConsistent backend profile reader := by
  have prepared := (prepared_of_opened opened nonempty).afterFast profile queries
  rw [verify_iff, acceptsFast_iff prepared]
  by_cases readable : ∃ data, ReadsAll backend profile reader data
  · obtain ⟨data, reads⟩ := readable
    have only (holds : List Bytes → Prop) :
        (∃ other, ReadsAll backend profile reader other ∧ holds other) ↔ holds data :=
      ⟨fun ⟨_, readsOther, held⟩ => reads.unique readsOther ▸ held, fun held => ⟨data, reads, held⟩⟩
    have every (holds : List Bytes → Prop) :
        (∀ other, ReadsAll backend profile reader other → holds other) ↔ holds data :=
      ⟨fun all => all data reads, fun held _ readsOther => reads.unique readsOther ▸ held⟩
    rw [only, only, RootsConsistent, every]
    by_cases same : data.map backend.hash = indexHashes reader
    · simp [same]
    · have sameLength : (data.map backend.hash).length = (indexHashes reader).length := by
        rw [List.length_map, indexHashes, List.length_map, (readsAll_iff.mp reads).1]
      have apart : merkleRootOf backend (indexHashes reader) = reader.header.merkleRoot →
          merkleRootOf backend (data.map backend.hash) ≠ reader.header.merkleRoot :=
        fun indexRoot dataRoot => same (PairFold.eq_of_top_eq backend.hashPair zeroHash
          sameLength (noCollision data reads) (dataRoot.trans indexRoot.symm))
      simp only [same, iff_false, ne_eq, not_false_eq_true, true_and]
      exact ⟨Or.inr, fun either => either.elim apart id⟩
  · have none (holds : List Bytes → Prop) :
        ¬∃ other, ReadsAll backend profile reader other ∧ holds other :=
      fun ⟨other, reads, _⟩ => readable ⟨other, reads⟩
    exact iff_of_true (iff_of_false (none _) (none _))
      fun data reads => absurd ⟨data, reads⟩ readable

namespace Tampered

def libraries : Backend :=
  { idleLibraries with
    hash := fun data => Bytes.toVector 32 (data.take 1 ++ (data.drop 32).take 1) }

def header : Header :=
  { Header.new with
    totalChunks := 2
    indexOffset := 258
    indexSize := 112
    fileTableOffset := 370 }

/-- The entries of the chunks `[5]` and `[6]`. -/
def entries : List ChunkEntry :=
  [⟨256, 1, 1, libraries.hash [5], 0, Vector.replicate 7 0⟩,
    ⟨257, 1, 1, libraries.hash [6], 0, Vector.replicate 7 0⟩]

/-- The header, the two chunks and their index. -/
def archive : Bytes := header.toBytes ++ ([5, 6] ++ (ChunkIndex.toBytes entries ++ []))

def reader : WarpReader := buildVerificationTree libraries (readerOf archive none header entries [])

theorem length_archive : archive.length = 370 := by
  simp only [archive, List.length_append, length_toBytes, ChunkIndex.length_toBytes]
  rfl

theorem opened : openWithVerification libraries .release archive = .ok reader := by
  have front : HeaderOf archive none header := by
    refine ⟨by rw [length_archive]; decide, ?_, Or.inl rfl⟩
    rw [archive, Bytes.slice_append_self _ _ (length_toBytes _).symm, fromBytes_toBytes _ rfl]
  have index : IndexOf archive header entries := by
    refine ⟨by rw [length_archive]; decide, ?_, rfl⟩
    rw [archive, ← List.append_assoc, sectionAt_append, ChunkIndex.fromBytes_toBytes]
    · rw [List.length_append, length_toBytes]
      rfl
    · rw [ChunkIndex.length_toBytes]
      rfl
  have table : TableOf libraries archive header [] :=
    ⟨by rw [length_archive]; decide, rfl, rfl⟩
  have plain : openInternal libraries .release archive none =
      .ok (readerOf archive none header entries []) :=
    openInternal_eq_ok_iff.mpr ⟨header, entries, [], front, index, table, rfl⟩
  simp only [openWithVerification, plain, bind_eq, ok_bind, pure_eq, reader]

theorem readChunk_reader {entry : ChunkEntry} {chunk : Bytes}
    (indexed : reader.chunkIndex[index]? = some entry) (plain : entry.flags = 0)
    (stored : ∀ beyond, readRange .release archive entry.offset entry.compressedSize.toUInt64
      beyond = .ok chunk) (size : chunk.length = entry.originalSize.toNat) :
    readChunk libraries .release reader index = .ok chunk := by
  have unlocked : decryptChunk libraries reader index chunk = .ok chunk := rfl
  have raw : decompressChunk libraries reader entry chunk = .ok chunk := by
    unfold decompressChunk ChunkEntry.isCompressed
    rw [plain]
    rfl
  have mapped : reader.mmap = archive := rfl
  simp only [readChunk, indexed, mapped, stored, bind_eq, ok_bind, unlocked, raw,
    Outcome.require, if_pos size, reduceCtorEq, false_imp_iff, ↓reduceIte, pure_eq]

theorem readsAll : ReadsAll libraries .release reader [[5], [6]] := by
  have first : readChunk libraries .release reader 0 = .ok [5] := by
    refine readChunk_reader rfl rfl (fun beyond => ?_) rfl
    rw [archive]
    exact readRange_section header.toBytes [5] _ (length_toBytes header).symm rfl
      (by rw [length_toBytes]; decide)
  have second : readChunk libraries .release reader 1 = .ok [6] := by
    refine readChunk_reader rfl rfl (fun beyond => ?_) rfl
    have front : (header.toBytes ++ [5]).length = 257 := by
      rw [List.length_append, length_toBytes]
      rfl
    have sections : archive =
        header.toBytes ++ [5] ++ ([6] ++ (ChunkIndex.toBytes entries ++ [])) := by
      rw [archive, List.append_assoc]
      rfl
    rw [sections]
    exact readRange_section _ _ _ front.symm rfl (by rw [front]; decide)
  exact .cons first (.cons second .nil)

theorem noCollision (data : List Bytes) (reads : ReadsAll libraries .release reader data) :
    PairFold.NoCollision libraries.hashPair (data.map libraries.hash) (indexHashes reader) := by
  obtain rfl := reads.unique readsAll
  have pair (here : ChunkHash × ChunkHash) (member : here ∈ PairFold.folded libraries.hashPair
      (Nat.clog 2 2) [libraries.hash [5], libraries.hash [6]]) :
      here = (libraries.hash [5], libraries.hash [6]) := by
    rw [PairFold.clog_pairUp le_rfl, Nat.clog_of_right_le_one (by decide)] at member
    exact List.mem_singleton.mp member
  intro here member there member' _
  rw [pair here member, pair there member']

end Tampered

open Tampered

/-- A header root of zeros: full verification rejects what fast verification accepts. -/
theorem verifiers_disagree :
    openWithVerification Tampered.libraries .release Tampered.archive = .ok Tampered.reader ∧
      Tampered.reader.chunkIndex.length = 2 ∧
      verify Tampered.libraries .release Tampered.reader = .ok false ∧
      AcceptsFast Tampered.libraries .release Tampered.reader := by
  refine ⟨opened, rfl, ?_, ?_⟩
  · rw [readsAll.verify_eq]
    exact congrArg Outcome.ok (by decide)
  · exact (acceptsFast_iff (prepared_of_opened opened (List.cons_ne_nil _ _))).mpr
      ⟨_, readsAll, rfl⟩

/-- Both verifiers on a tampered archive. -/
theorem verifiers_agree_iff_tampered :
    (verify Tampered.libraries .release Tampered.reader = .ok true ↔
      AcceptsFast Tampered.libraries .release
        (afterFast Tampered.libraries .release Tampered.reader [1, 0])) ↔
      RootsConsistent Tampered.libraries .release Tampered.reader :=
  verifiers_agree_iff libraries .release archive reader
    opened (List.cons_ne_nil _ _) noCollision [1, 0]

end Warp.Format
