import Warp.Foundation.LexicalPath
import Warp.Foundation.Traced
import Warp.Format.HostileArchive
import Warp.Format.RoundTrip

/-! # Extracting an archive

Extraction joins the path of every entry to the destination as it is, and stops at the first
failure; the file system and the memory may refuse anything. It stays inside every destination
exactly if no entry that is reached climbs out of it (`extraction_contained_iff`).
-/

namespace Warp.Format

open LexicalPath Traced FileTable

inductive FileRequest where
  | createDirAll (dir : List Component)
  | write (dest : List Component) (data : Bytes)
  | setPermissions (dest : List Component) (mode : UInt32)
  | setFileMtime (dest : List Component) (mtime : Int64)

def FileRequest.path : FileRequest → List Component
  | .createDirAll dir => dir
  | .write dest _ => dest
  | .setPermissions dest _ => dest
  | .setFileMtime dest _ => dest

structure Surroundings where
  answer : List FileRequest → FileRequest → Except String Unit
  allocates : UInt64 → Bool

def Surroundings.willing : Surroundings where
  answer _ _ := .ok ()
  allocates _ := true

namespace WarpReader

variable (backend : Backend) (profile : BuildProfile) (surroundings : Surroundings)

def ask (made : FileRequest) : Traced FileRequest FormatError Unit :=
  Traced.request (fun history made =>
    Outcome.ofExcept ((surroundings.answer history made).mapError FormatError.io)) made

/-- Create a directory and its parents. The empty path needs nothing. -/
def createDirAll (dir : List Component) : Traced FileRequest FormatError Unit :=
  if dir = [] then pure () else ask surroundings (.createDirAll dir)

/-- Reserve memory. A size beyond the largest signed 64-bit number panics, and so does
a failed allocation. -/
def withCapacity (size : UInt64) : Outcome FormatError Unit :=
  if size.toNat < 2 ^ 63 ∧ surroundings.allocates size then .ok () else .panic

def fileData (reader : WarpReader) (archivePath : String) (entry : FileEntry) :
    Outcome FormatError Bytes := do
  withCapacity surroundings entry.size
  let data ← readFileData backend profile reader entry
  let got := data.length
  let expected := entry.size
  Outcome.require (got = expected.toNat) (.corrupted
    s!"File size mismatch for {archivePath}: got {got}, expected {expected}")
  Outcome.require (backend.hash data = entry.hash)
    (.corrupted s!"File hash mismatch for {archivePath}")
  return data

/-- The point in time of a modification. A time before the epoch panics. -/
def systemTime (mtime : Int64) : Outcome FormatError Int64 :=
  if 0 ≤ mtime then .ok mtime else .panic

def findFile (reader : WarpReader) (archivePath : String) : Outcome FormatError FileEntry :=
  match FileTable.getByPath reader.fileTable archivePath with
  | some entry => .ok entry
  | none => .error (.corrupted s!"File not found in archive: {archivePath}")

def createParent (dest : Path) : Traced FileRequest FormatError Unit :=
  match parent (components dest) with
  | some dir => createDirAll surroundings dir
  | none => pure ()

def extractFile (reader : WarpReader) (archivePath : String) (dest : Path) :
    Traced FileRequest FormatError Unit := do
  let entry ← Traced.ofOutcome (findFile reader archivePath)
  createParent surroundings dest
  let data ← Traced.ofOutcome (fileData backend profile surroundings reader archivePath entry)
  ask surroundings (.write (components dest) data)
  ask surroundings (.setPermissions (components dest) entry.mode)
  let mtime ← Traced.ofOutcome (systemTime entry.mtime)
  Traced.attempt (.setFileMtime (components dest) mtime)

def extractAll (reader : WarpReader) (dest : Path) : Traced FileRequest FormatError Unit :=
  Traced.forEach (fun entry : FileEntry =>
    extractFile backend profile surroundings reader entry.path (join dest entry.path.toList))
    reader.fileTable

/-- The chunks of an entry read back as a content of the recorded size and hash. -/
structure Retrieves (reader : WarpReader) (entry : FileEntry) (data : Bytes) : Prop where
  fits : entry.size.toNat < 2 ^ 63
  read : readFileData backend profile reader entry = .ok data
  size : data.length = entry.size.toNat
  hash : backend.hash data = entry.hash

/-- The file of a path can be extracted, if the surroundings allow it. -/
def Extractable (reader : WarpReader) (path : String) : Prop :=
  ∃ entry data, FileTable.getByPath reader.fileTable path = some entry ∧
    Retrieves backend profile reader entry data ∧ 0 ≤ entry.mtime

/-- Extraction gets to an entry, if the surroundings allow it. -/
def Reached (reader : WarpReader) (entry : FileEntry) : Prop :=
  ∃ before after, reader.fileTable = before ++ entry :: after ∧
    ∀ earlier ∈ before, Extractable backend profile reader earlier.path

/-- The parent directory that an entry has made stays inside every destination, and so
does the file, if it can be read. -/
def StaysInside (reader : WarpReader) (entry : FileEntry) : Prop :=
  ParentContained entry.path.toList ∧
    ∀ found data, FileTable.getByPath reader.fileTable entry.path = some found →
      Retrieves backend profile reader found data → Contained entry.path.toList

variable {backend profile surroundings} {reader : WarpReader} {archivePath : String}
  {entry : FileEntry}

theorem findFile_eq_ok_iff :
    findFile reader archivePath = .ok entry ↔
      getByPath reader.fileTable archivePath = some entry := by
  unfold findFile
  cases getByPath reader.fileTable archivePath <;> simp

theorem fileData_eq_ok_iff {data : Bytes} :
    fileData backend profile surroundings reader archivePath entry = .ok data ↔
      surroundings.allocates entry.size ∧ Retrieves backend profile reader entry data := by
  have capacity : withCapacity surroundings entry.size = .ok () ↔
      entry.size.toNat < 2 ^ 63 ∧ surroundings.allocates entry.size := by
    unfold withCapacity
    split <;> simp_all
  simp only [fileData, Outcome.bind_eq, Outcome.bind_eq_ok_iff, Outcome.require_eq_ok_iff,
    Outcome.pure_eq, Outcome.ok.injEq]
  constructor
  · rintro ⟨⟨⟩, reserved, _, read, -, size, -, hash, rfl⟩
    obtain ⟨fits, allocated⟩ := capacity.mp reserved
    exact ⟨allocated, fits, read, size, hash⟩
  · rintro ⟨allocated, fits, read, size, hash⟩
    exact ⟨(), capacity.mpr ⟨fits, allocated⟩, data, read, (), size, (), hash, rfl⟩

section
variable {archivePath : String} {dest : Path}

theorem extractable_of_ok {history : List FileRequest}
    (succeeds : (extractFile backend profile surroundings reader archivePath dest history).1 =
      .ok ()) : Extractable backend profile reader archivePath := by
  obtain ⟨entry, _, found, succeeds⟩ := bind_fst_eq_ok succeeds
  obtain ⟨_, _, -, succeeds⟩ := bind_fst_eq_ok succeeds
  obtain ⟨data, _, read, succeeds⟩ := bind_fst_eq_ok succeeds
  obtain ⟨_, _, -, succeeds⟩ := bind_fst_eq_ok succeeds
  obtain ⟨_, _, -, succeeds⟩ := bind_fst_eq_ok succeeds
  obtain ⟨mtime, _, timed, -⟩ := bind_fst_eq_ok succeeds
  have inTime : 0 ≤ entry.mtime := by
    by_contra early
    simp [Traced.ofOutcome, systemTime, early] at timed
  exact ⟨entry, data, findFile_eq_ok_iff.mp (congrArg Prod.fst found),
    (fileData_eq_ok_iff.mp (congrArg Prod.fst read)).2, inTime⟩

/-- Extraction makes a parent directory, and if the file can be read, changes the
file. -/
theorem only_extractFile {holds : FileRequest → Prop}
    (directories : ∀ dir, parent (components dest) = some dir → dir ≠ [] →
      holds (.createDirAll dir))
    (files : ∀ found data, getByPath reader.fileTable archivePath = some found →
      Retrieves backend profile reader found data →
      ∀ made : FileRequest, made.path = components dest → holds made) :
    Traced.Only holds (extractFile backend profile surroundings reader archivePath dest) := by
  have makesParent : Traced.Only holds (createParent surroundings dest) := by
    unfold createParent createDirAll
    split
    next dir isParent =>
      split_ifs with empty
      · exact only_pure _
      · exact only_request (directories dir isParent empty)
    next => exact only_pure _
  refine only_bind (only_ofOutcome _) fun _ entry found => ?_
  refine only_bind makesParent fun _ _ _ => ?_
  refine only_bind (only_ofOutcome _) fun _ data read => ?_
  have file := files entry data (findFile_eq_ok_iff.mp found) (fileData_eq_ok_iff.mp read).2
  refine only_bind (only_request (file _ rfl)) fun _ _ _ => ?_
  refine only_bind (only_request (file _ rfl)) fun _ _ _ => ?_
  refine only_bind (only_ofOutcome _) fun _ mtime _ => ?_
  exact only_attempt (file _ rfl)

end

variable {archivePath : String} {dest : Path} {entry : FileEntry} {data : Bytes}

theorem createParent_willing (dest : Path) : ∃ made,
    (∀ history, createParent .willing dest history = (.ok (), made)) ∧
      ∀ dir, parent (components dest) = some dir → dir ≠ [] → .createDirAll dir ∈ made := by
  unfold createParent createDirAll
  cases parent (components dest) with
  | none => exact ⟨[], fun _ => rfl, by simp⟩
  | some dir =>
    by_cases empty : dir = []
    · exact ⟨[], fun _ => congrFun (if_pos empty) _, by simp [empty]⟩
    · exact ⟨[.createDirAll dir], fun _ => congrFun (if_neg empty) _, by simp⟩

variable (found : FileTable.getByPath reader.fileTable archivePath = some entry)
include found

theorem createDirAll_mem_extractFile {dir : List Component}
    (isParent : parent (components dest) = some dir) (named : dir ≠ []) (history : List FileRequest) :
    .createDirAll dir ∈
      (extractFile backend profile .willing reader archivePath dest history).2 := by
  obtain ⟨made, created, within⟩ := createParent_willing dest
  unfold extractFile
  rw [findFile_eq_ok_iff.mpr found, bind_eq, ofOutcome_ok_bind, bind_eq]
  apply mem_bind_left
  rw [created history]
  exact within dir isParent named

/-- Extraction reaches the write of a file that can be read, and succeeds if its time
is not before the epoch. -/
theorem extractFile_willing (retrieves : Retrieves backend profile reader entry data)
    (history : List FileRequest) :
    .write (components dest) data ∈
        (extractFile backend profile .willing reader archivePath dest history).2 ∧
      (0 ≤ entry.mtime →
        (extractFile backend profile .willing reader archivePath dest history).1 = .ok ()) := by
  obtain ⟨made, created, -⟩ := createParent_willing dest
  have read : fileData backend profile .willing reader archivePath entry = .ok data :=
    fileData_eq_ok_iff.mpr ⟨rfl, retrieves⟩
  unfold extractFile
  rw [findFile_eq_ok_iff.mpr found, bind_eq, ofOutcome_ok_bind, bind_eq,
    bind_of_ok (created history)]
  simp only [read, bind_eq, ofOutcome_ok_bind]
  constructor
  · exact List.mem_append_right _ (mem_bind_left List.mem_cons_self)
  · intro inTime
    rw [systemTime, if_pos inTime]
    rfl

end WarpReader

open WarpReader

/-- **Where extraction stays inside the destination.** Whatever the surroundings do,
everything extraction changes is the destination or lies under it, for every
destination, exactly if every entry that is reached stays inside. -/
theorem extraction_contained_iff (backend : Backend) (profile : BuildProfile)
    (reader : WarpReader) :
    (∀ surroundings dest, ∀ made ∈ (extractAll backend profile surroundings reader dest []).2,
      Under (locate (components dest)) (locate made.path)) ↔
      ∀ entry, Reached backend profile reader entry → StaysInside backend profile reader entry := by
  constructor
  · rintro inside entry ⟨before, after, listed, earlier⟩
    have reached dest : ∀ turn ∈ before, ∀ history, (extractFile backend profile .willing reader
        turn.path (join dest turn.path.toList) history).1 = .ok () := by
      intro turn member history
      obtain ⟨found, data, first, retrieves, inTime⟩ := earlier turn member
      exact (extractFile_willing first retrieves history).2 inTime
    have among {dest : Path} {made : FileRequest} (member : ∀ history, made ∈ (extractFile backend
        profile .willing reader entry.path (join dest entry.path.toList) history).2) :
        Under (locate (components dest)) (locate made.path) := by
      apply inside .willing dest
      unfold extractAll
      rw [listed]
      exact mem_forEach (reached dest) member []
    refine ⟨?_, ?_⟩
    · apply (under_parent_join_iff _).mp
      intro dest dir isParent named
      have present : (getByPath reader.fileTable entry.path).isSome := by
        unfold getByPath
        rw [List.find?_isSome]
        exact ⟨entry, by simp [listed], decide_eq_true rfl⟩
      obtain ⟨found, first⟩ := Option.isSome_iff_exists.mp present
      exact among fun history => createDirAll_mem_extractFile first isParent named history
    · intro found data first retrieves
      apply (under_join_iff _).mp
      intro dest
      exact among fun history => (extractFile_willing first retrieves history).1
  · intro stays surroundings dest
    refine only_forEach (fun before entry after listed earlier => ?_) []
    have inside := stays entry ⟨before, after, listed, fun turn member => by
      obtain ⟨history, succeeds⟩ := earlier turn member
      exact extractable_of_ok succeeds⟩
    apply only_extractFile
    · exact (under_parent_join_iff _).mpr inside.1 dest
    · intro found data first retrieves made same
      rw [same]
      exact (under_join_iff _).mpr (inside.2 found data first retrieves) dest

namespace Escape

def source : SourceFile := ⟨"../x", [], 0o644, 0⟩

def config : WarpWriterConfig where
  compression := .none
  chunkSize := 8
  minChunkSize := 4
  maxChunkSize := 16
  encryption := .none
  encryptionKey := none

def entry : FileEntry := ⟨"../x", 0, 0o644, 0, 0, 0, zeroHash⟩

def backend : Backend := { idleLibraries with deserializeTable := fun _ => .ok [entry] }

def layout : Layout := ⟨config, Vector.replicate 16 0, 1, [], []⟩

end Escape

open Escape

/-- The writer archives a file under a path that climbs, the archive opens, and
extracting it to `out` writes to a path outside. -/
theorem extraction_escapes : ∃ archive reader,
    WarpWriter.writeArchive Escape.backend Escape.config (Vector.replicate 16 0)
      (fun _ => Vector.replicate 12 0) [Escape.source] = .ok archive ∧
    openInternal Escape.backend .release archive none = .ok reader ∧
    .write (components "out/../x".toList) [] ∈
      (extractAll Escape.backend .release .willing reader "out".toList []).2 ∧
    ¬Under (locate (components "out".toList)) (locate (components "out/../x".toList)) := by
  have laws : backend.RoundTrips :=
    ⟨fun _ _ _ same => by cases same; rfl, fun _ _ data => ⟨data, rfl, rfl⟩⟩
  have noChunks : allChunks config [source] = [] := by decide
  obtain ⟨stored, given, -, written⟩ := writeArchive_eq_image (Vector.replicate 16 0)
    (fun _ => Vector.replicate 12 0) laws [source]
    (fun chunk member => absurd (noChunks ▸ member) List.not_mem_nil) rfl
  obtain rfl : stored = [] := List.map_eq_nil_iff.mp (given.trans noChunks)
  have small : (layout.image backend).length < 2 ^ 64 := by
    rw [Layout.length_image]
    decide
  have opened := Layout.openInternal_image small .release (by decide) rfl rfl (by decide)
  have retrieves : Retrieves backend .release
      (layout.reader backend [entry]) entry [] :=
    ⟨by decide, rfl, rfl, rfl⟩
  refine ⟨_, _, written, opened, ?_, by decide⟩
  unfold extractAll
  exact mem_bind_left (extractFile_willing rfl retrieves []).1

end Warp.Format
