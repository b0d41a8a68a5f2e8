import Mathlib.Data.List.Sort
import Warp.Foundation.FileTree
import Warp.Store.MetadataStateMachine
import Warp.Store.StoragePaths

/-! # Local filesystem storage backend

The data of an object and its metadata are kept in files whose paths come from the key; the parts of
an upload are files of their own until it is completed. A call may fail, and what it has done before
stays. For keys and upload IDs that are written as names, `LocalBackend.view_put` and its companions
say what is seen at every path after a call that succeeds.
-/

namespace Warp.Store

open FileTree LexicalPath List

/-- A number in hexadecimal with at least the given number of digits. -/
def paddedHex (width number : ℕ) : Text :=
  let digits := Nat.toDigits 16 number
  List.replicate (width - digits.length) '0' ++ digits

def hexEncode (bytes : Bytes) : Text := bytes.flatMap fun byte => paddedHex 2 byte.toNat

inductive StorageClass where
  | standard
  | infrequentAccess
  | archive
  | gpuPinned
  deriving DecidableEq

structure ObjectMeta where
  size : ℕ
  contentHash : Bytes
  etag : Text
  contentType : Option Text
  createdAt : ℕ
  modifiedAt : ℕ
  versionId : Option Text
  userMetadata : Table Text Text
  isDeleteMarker : Bool
  storageClass : StorageClass
  deriving DecidableEq

/-- Options for `put`. -/
structure PutOptions where
  contentType : Option Text := none
  metadata : Table Text Text := ∅
  /-- Only put if the object does not exist. -/
  ifNoneMatch : Bool := false
  storageClass : StorageClass := .standard

structure UploadMeta where
  bucket : Text
  key : Text
  uploadId : Text
  createdAt : ℕ
  deriving DecidableEq

structure MultipartUpload where
  uploadId : Text
  key : ObjectKey
  createdAt : ℕ
  deriving DecidableEq

structure PartInfo where
  partNumber : UInt32
  etag : Text
  size : ℕ
  deriving DecidableEq

inductive BackendError where
  | bucketNotFound (bucket : Text)
  | objectNotFound (bucket key : Text)
  | permissionDenied (message : String)
  | io (failure : IoError)
  | backend (message : Text)
  deriving DecidableEq

/-- What the backend runs on: the working directory, the hash function and the serialisations. -/
structure Host where
  cwd : List Name
  hash : Bytes → Bytes
  objectMetas : Serde ObjectMeta
  uploadMetas : Serde UploadMeta

def ObjectMeta.new (host : Host) (data : Bytes) (now : ℕ) : ObjectMeta where
  size := data.length
  contentHash := host.hash data
  etag := '"' :: hexEncode ((host.hash data).take 16) ++ ['"']
  contentType := none
  createdAt := now
  modifiedAt := now
  versionId := none
  userMetadata := ∅
  isDeleteMarker := false
  storageClass := .standard

def ObjectMeta.withMetadata (metadata : ObjectMeta) (key value : Text) : ObjectMeta :=
  { metadata with userMetadata := metadata.userMetadata.insert key value }

section Actions

abbrev Action := EStateM BackendError (Node Bytes)

def io (call : Node Bytes → Except IoError (Node Bytes)) : Action Unit := fun files =>
  match call files with
  | .ok after => .ok () after
  | .error failure => .error (.io failure) files

def require (condition : Prop) [Decidable condition] (failure : BackendError) : Action Unit :=
  if condition then pure () else throw failure

variable {Value Result : Type} {before after : Node Bytes} {result : Result}
  {call : Node Bytes → Except IoError (Node Bytes)} {failure : BackendError} {condition : Prop}
  {next : Unit → Action Result}

theorem bind_eq_ok_iff {action : Action Value} {next : Value → Action Result} :
    (action >>= next) before = .ok result after ↔
      ∃ value between, action before = .ok value between ∧
        next value between = .ok result after := by
  change EStateM.bind action next before = _ ↔ _
  unfold EStateM.bind
  cases action before with
  | ok value between =>
    constructor
    · exact fun done => ⟨value, between, rfl, done⟩
    · rintro ⟨_, _, ⟨⟩, done⟩
      exact done
  | error failure between =>
    constructor
    · exact fun done => nomatch done
    · rintro ⟨_, _, ⟨⟩, -⟩

theorem pure_eq_ok_iff {value result : Value} :
    (pure value : Action Value) before = .ok result after ↔ value = result ∧ before = after := by
  constructor
  · rintro ⟨⟩
    exact ⟨rfl, rfl⟩
  · rintro ⟨rfl, rfl⟩
    rfl

theorem io_eq_ok_iff :
    io call before = .ok () after ↔ call before = .ok after := by
  unfold io
  cases call before with
  | ok files =>
    constructor
    · rintro ⟨⟩
      rfl
    · rintro ⟨⟩
      rfl
  | error failure =>
    constructor
    · exact fun done => nomatch done
    · exact fun done => nomatch done

theorem require_eq_ok_iff [Decidable condition] :
    require condition failure before = .ok () after ↔ condition ∧ before = after := by
  unfold require
  split_ifs with holds
  · exact pure_eq_ok_iff.trans (by simp [holds])
  · constructor
    · exact fun done => nomatch done
    · exact fun done => absurd done.1 holds

theorem io_bind_eq_ok_iff :
    (io call >>= next) before = .ok result after ↔
      ∃ between, call before = .ok between ∧ next () between = .ok result after := by
  rw [bind_eq_ok_iff]
  constructor
  · rintro ⟨⟨⟩, between, called, done⟩
    exact ⟨between, io_eq_ok_iff.mp called, done⟩
  · rintro ⟨between, called, done⟩
    exact ⟨(), between, io_eq_ok_iff.mpr called, done⟩

theorem require_bind_eq_ok_iff [Decidable condition] :
    (require condition failure >>= next) before = .ok result after ↔
      condition ∧ next () before = .ok result after := by
  rw [bind_eq_ok_iff]
  constructor
  · rintro ⟨⟨⟩, _, required, done⟩
    obtain ⟨holds, rfl⟩ := require_eq_ok_iff.mp required
    exact ⟨holds, done⟩
  · rintro ⟨holds, done⟩
    exact ⟨(), before, require_eq_ok_iff.mpr ⟨holds, rfl⟩, done⟩

end Actions

def Host.target (host : Host) (path : Path) : Target :=
  ⟨resolve host.cwd (locate (components path)), endsAsDirectory path⟩

namespace LocalBackend

variable (backend : LocalBackend) (host : Host) {dirs : List Name} {path : Path} {last : Name}

def new (root : Path) : Action LocalBackend := do
  io (·.createDirAll (host.target (join root "buckets".toList)))
  return ⟨root⟩

def ensureParent (path : Path) : Action Unit :=
  match parent (components path) with
  | none => pure ()
  | some dir => io (·.createDirAll ⟨resolve host.cwd (locate dir), false⟩)

def pathExists (path : Path) : Action Bool := fun files =>
  .ok (files.exists? (host.target path)) files

def readFile (path : Path) : Action Bytes := fun files =>
  match files.read (host.target path) with
  | .ok data => .ok data files
  | .error failure => .error (.io failure) files

def generateUploadId (timestamp : ℕ) : Text := paddedHex 32 timestamp

def get (key : ObjectKey) : Action Bytes := fun files =>
  match files.read (host.target (backend.dataPath key)) with
  | .ok data => .ok data files
  | .error .notFound => .error (.objectNotFound key.bucket key.key) files
  | .error failure => .error (.io failure) files

def tempPath (key : ObjectKey) : Path := withExtension (backend.dataPath key) "tmp".toList

def put (key : ObjectKey) (data : Bytes) (opts : PutOptions) (now : ℕ) : Action ObjectMeta := do
  let present ← pathExists host (backend.dataPath key)
  require (¬ (opts.ifNoneMatch ∧ present))
    (.permissionDenied "object already exists and if_none_match is set")
  ensureParent host (backend.dataPath key)
  ensureParent host (backend.metaPath key)
  let fresh := { ObjectMeta.new host data now with storageClass := opts.storageClass }
  let typed := { fresh with contentType := opts.contentType }
  let metadata := opts.metadata.entries.foldl
    (fun metadata entry => metadata.withMetadata entry.1 entry.2) typed
  -- write to temp, then rename
  io (·.write (host.target (backend.tempPath key)) data)
  io (·.rename (host.target (backend.tempPath key)) (host.target (backend.dataPath key)))
  io (·.write (host.target (backend.metaPath key)) (host.objectMetas.toBytes metadata))
  return metadata

def delete (key : ObjectKey) : Action Unit := fun files =>
  match files.removeFile (host.target (backend.dataPath key)) with
  | .error .notFound => .error (.objectNotFound key.bucket key.key) files
  | .error failure => .error (.io failure) files
  | .ok after =>
    -- a failure to remove the metadata is ignored
    match after.removeFile (host.target (backend.metaPath key)) with
    | .ok last => .ok () last
    | .error _ => .ok () after

def createBucket (name : Text) : Action Unit := do
  io (·.createDirAll (host.target (join (backend.bucketPath name) "data".toList)))
  io (·.createDirAll (host.target
    (join (join (backend.bucketPath name) ".meta".toList) "objects".toList)))

def createMultipart (key : ObjectKey) (timestamp now : ℕ) : Action MultipartUpload := do
  let present ← pathExists host (backend.bucketPath key.bucket)
  require present (.bucketNotFound key.bucket)
  let uploadId := generateUploadId timestamp
  io (·.createDirAll (host.target (backend.uploadPath key uploadId)))
  let metadata : UploadMeta := ⟨key.bucket, key.key, uploadId, now⟩
  io (·.write (host.target (backend.uploadMetaPath key uploadId))
    (host.uploadMetas.toBytes metadata))
  return ⟨uploadId, key, now⟩

def requireUpload (upload : MultipartUpload) : Action Unit := do
  let present ← pathExists host (backend.uploadPath upload.key upload.uploadId)
  require present (.backend ("Upload ".toList ++ upload.uploadId ++ " not found".toList))

def uploadPart (upload : MultipartUpload) (partNumber : UInt32) (data : Bytes) :
    Action PartInfo := do
  require (¬ (partNumber = 0 ∨ 10000 < partNumber))
    (.backend ("Invalid part number: ".toList ++ Nat.toDigits 10 partNumber.toNat ++
      ". Must be between 1 and 10000".toList))
  backend.requireUpload host upload
  io (·.write (host.target (backend.partPath upload.key upload.uploadId partNumber)) data)
  return ⟨partNumber, '"' :: hexEncode (host.hash data) ++ ['"'], data.length⟩

def assemble (upload : MultipartUpload) : List PartInfo → Action Bytes
  | [] => pure []
  | part :: rest => do
      let path := backend.partPath upload.key upload.uploadId part.partNumber
      let present ← pathExists host path
      require present (.backend ("Part ".toList ++ Nat.toDigits 10 part.partNumber.toNat ++
        " not found for upload ".toList ++ upload.uploadId))
      let data ← readFile host path
      let assembled ← assemble upload rest
      return data ++ assembled

def completeMultipart (upload : MultipartUpload) (parts : List PartInfo) (now : ℕ) :
    Action ObjectMeta := do
  backend.requireUpload host upload
  let sortedParts := parts.insertionSort fun first second =>
    first.partNumber ≤ second.partNumber
  let data ← backend.assemble host upload sortedParts
  let metadata ← backend.put host upload.key data {} now
  io (·.removeDirAll (host.target (backend.uploadPath upload.key upload.uploadId)))
  return metadata

def abortMultipart (upload : MultipartUpload) : Action Unit := do
  backend.requireUpload host upload
  io (·.removeDirAll (host.target (backend.uploadPath upload.key upload.uploadId)))

section Targets
variable {backend host} {key : ObjectKey} {bucket : Text} {names : List Name} {base : Path}

def bucketsDir (backend : LocalBackend) (host : Host) : List Name :=
  (host.target (join backend.root "buckets".toList)).names

section
variable (valid : validateBucket bucket = .ok ())
include valid

theorem isName_bucket : IsName bucket := by
  obtain ⟨length, -, first⟩ := bucket_cases valid
  refine ⟨slash_not_mem_bucket valid, ?_, ?_, ?_⟩
  · rintro rfl
    cases length
  · rintro rfl
    exact first rfl
  · rintro rfl
    exact first rfl

omit valid in
theorem target_join (isOpen : Open base) (spells : Spells path names) :
    host.target (join base path) = ⟨(host.target base).names ++ names, false⟩ := by
  unfold Host.target
  rw [spells.locate_join, resolve_append, spells.endsAsDirectory_join isOpen]

theorem open_bucketPath :
    Open (backend.bucketPath bucket) := open_join_name _ (isName_bucket valid)

theorem target_bucketPath :
    host.target (backend.bucketPath bucket) = ⟨backend.bucketsDir host ++ [bucket], false⟩ :=
  target_join (open_join_name _ (by decide)) (isName_bucket valid).spells

theorem target_bucket_join {area : Text} (isName : IsName area) :
    host.target (join (backend.bucketPath bucket) area) =
      ⟨backend.bucketsDir host ++ [bucket, area], false⟩ := by
  rw [target_join (open_bucketPath valid) isName.spells, target_bucketPath valid, append_assoc]
  rfl

omit valid in
theorem target_dataPath (spells : Spells key.key names) :
    host.target (backend.dataPath key) =
      ⟨backend.bucketsDir host ++ key.bucket :: "data".toList :: names, false⟩ := by
  unfold dataPath
  rw [target_join (open_join_name _ (by decide)) spells,
    target_bucket_join key.bucketValid (by decide), append_assoc]
  rfl

theorem target_objects :
    host.target (join (join (backend.bucketPath bucket) ".meta".toList) "objects".toList) =
      ⟨backend.bucketsDir host ++ [bucket, ".meta".toList, "objects".toList], false⟩ := by
  rw [target_join (open_join_name _ (by decide)) (IsName.spells (by decide)),
    target_bucket_join valid (by decide), append_assoc]
  rfl

end

theorem ensureParent_join (spells : Spells path (dirs ++ [last])) :
    ensureParent host (join base path) =
      io (·.createDirAll ⟨(host.target base).names ++ dirs, false⟩) := by
  have named : parts path ≠ [] := by
    rw [spells.parts_eq]
    exact append_ne_nil_of_right_ne_nil _ (cons_ne_nil _ _)
  obtain ⟨dir, isParent, place, -⟩ := parent_join spells.relative named base
  have plain : ['.', '.'] ∉ (parts path).dropLast := fun member =>
    spells.no_dots (mem_of_mem_dropLast member)
  rw [walk_names plain, spells.parts_eq, dropLast_concat] at place
  unfold ensureParent
  simp only [isParent, place, resolve_append]
  rfl

section Key
variable {dirs : List Name} {last : Name} (spells : Spells key.key (dirs ++ [last]))
include spells

/-- The temporary file is in the directory of the data. -/
theorem exists_tempPath : ∃ text, backend.tempPath key =
      join (join (backend.bucketPath key.bucket) "data".toList) text ∧
    Spells text (dirs ++ [stem last ++ ".tmp".toList]) := by
  have new : IsName (stem last ++ '.' :: "tmp".toList) :=
    spells.of_concat.1.stem_append (by decide) rfl (by decide : 'p' ≠ '.')
  exact spells.withExtension_join new (open_join_name _ (by decide))

theorem target_tempPath :
    host.target (backend.tempPath key) = ⟨backend.bucketsDir host ++ key.bucket ::
      "data".toList :: (dirs ++ [stem last ++ ".tmp".toList]), false⟩ := by
  obtain ⟨text, path, spelled⟩ := exists_tempPath spells
  rw [path, target_join (open_join_name _ (by decide)) spelled,
    target_bucket_join key.bucketValid (by decide), append_assoc]
  rfl

theorem dataPath_eq_tempPath {other : ObjectKey} (same : other.bucket = key.bucket)
    (spelled : Spells other.key (dirs ++ [stem last ++ ".tmp".toList])) :
    backend.dataPath other = backend.tempPath key := by
  obtain ⟨text, path, again⟩ := exists_tempPath spells
  unfold dataPath
  rw [path, same, spelled.eq_intercalate, again.eq_intercalate]

theorem spells_metaName : Spells (key.key ++ ".meta".toList) (dirs ++ [last ++ ".meta".toList]) :=
  spells.append_ending (IsName.of_append spells.of_concat.1.single (by decide) rfl
    (by decide : 'a' ≠ '.'))

theorem target_metaPath :
    host.target (backend.metaPath key) = ⟨backend.bucketsDir host ++ key.bucket ::
      ".meta".toList :: "objects".toList :: (dirs ++ [last ++ ".meta".toList]), false⟩ := by
  unfold metaPath
  rw [target_join (open_join_name _ (by decide)) (spells_metaName spells),
    target_objects key.bucketValid, append_assoc]
  rfl

theorem ensureParent_dataPath :
    ensureParent host (backend.dataPath key) = io (·.createDirAll
      ⟨backend.bucketsDir host ++ key.bucket :: "data".toList :: dirs, false⟩) := by
  unfold dataPath
  rw [ensureParent_join spells, target_bucket_join key.bucketValid (by decide), append_assoc]
  rfl

theorem ensureParent_metaPath :
    ensureParent host (backend.metaPath key) = io (·.createDirAll
      ⟨backend.bucketsDir host ++ key.bucket :: ".meta".toList :: "objects".toList :: dirs,
        false⟩) := by
  unfold metaPath
  rw [ensureParent_join (spells_metaName spells), target_objects key.bucketValid, append_assoc]
  rfl

end Key

variable {uploadId : Text} (isName : IsName uploadId)
include isName

theorem target_uploadPath :
    host.target (backend.uploadPath key uploadId) =
      ⟨backend.bucketsDir host ++ [key.bucket, ".uploads".toList, uploadId], false⟩ := by
  unfold uploadPath uploadsPath
  rw [target_join (open_join_name _ (by decide)) isName.spells,
    target_bucket_join key.bucketValid (by decide), append_assoc]
  rfl

theorem target_upload_join {file : Text} (isFile : IsName file) :
    host.target (join (backend.uploadPath key uploadId) file) =
      ⟨backend.bucketsDir host ++ [key.bucket, ".uploads".toList, uploadId, file], false⟩ := by
  have isOpen : Open (backend.uploadPath key uploadId) := open_join_name _ isName
  rw [target_join isOpen isFile.spells, target_uploadPath isName, append_assoc]
  rfl

end Targets

variable {backend host} {before after : Node Bytes} {key : ObjectKey}

def view (backend : LocalBackend) (host : Host) (files : Node Bytes) (rest : List Name) :
    Option (Kind Bytes) := files.look (backend.bucketsDir host ++ rest)

theorem readFile_eq_ok {data : Bytes} (done : readFile host path before = .ok data after) :
    before.look (host.target path).names = some (.file data) ∧ before = after := by
  unfold readFile at done
  split at done
  · next content found =>
    cases done
    exact ⟨(Node.read_eq_ok_iff.mp found).1, rfl⟩
  · cases done

theorem pathExists_bind {Result : Type} (path : Path) (next : Bool → Action Result) :
    (pathExists host path >>= next) before = next (before.exists? (host.target path)) before := rfl

section Put
variable {key : ObjectKey} {dirs : List Name} {last : Name}
  (spells : Spells key.key (dirs ++ [last])) {data : Bytes} {opts : PutOptions} {now : ℕ}
  {metadata : ObjectMeta} (done : backend.put host key data opts now before = .ok metadata after)
include spells done

/-- The calls to the file system of a `put` that succeeds. -/
theorem put_cases : ∃ first second third fourth bytes,
    before.createDirAll ⟨backend.bucketsDir host ++ key.bucket :: "data".toList :: dirs, false⟩ =
      .ok first ∧
    first.createDirAll ⟨backend.bucketsDir host ++ key.bucket :: ".meta".toList ::
      "objects".toList :: dirs, false⟩ = .ok second ∧
    second.write ⟨backend.bucketsDir host ++ key.bucket :: "data".toList ::
      (dirs ++ [stem last ++ ".tmp".toList]), false⟩ data = .ok third ∧
    third.rename ⟨backend.bucketsDir host ++ key.bucket :: "data".toList ::
      (dirs ++ [stem last ++ ".tmp".toList]), false⟩
      ⟨backend.bucketsDir host ++ key.bucket :: "data".toList :: (dirs ++ [last]), false⟩ =
      .ok fourth ∧
    fourth.write ⟨backend.bucketsDir host ++ key.bucket :: ".meta".toList ::
      "objects".toList :: (dirs ++ [last ++ ".meta".toList]), false⟩ bytes = .ok after := by
  unfold put at done
  rw [ensureParent_dataPath spells, ensureParent_metaPath spells, target_tempPath spells,
    target_dataPath spells, target_metaPath spells] at done
  rw [pathExists_bind] at done
  obtain ⟨-, done⟩ := require_bind_eq_ok_iff.mp done
  obtain ⟨first, dataDirs, done⟩ := io_bind_eq_ok_iff.mp done
  obtain ⟨second, metaDirs, done⟩ := io_bind_eq_ok_iff.mp done
  obtain ⟨third, written, done⟩ := io_bind_eq_ok_iff.mp done
  obtain ⟨fourth, renamed, done⟩ := io_bind_eq_ok_iff.mp done
  obtain ⟨_, recorded, done⟩ := io_bind_eq_ok_iff.mp done
  obtain ⟨-, rfl⟩ := pure_eq_ok_iff.mp done
  exact ⟨first, second, third, fourth, _, dataDirs, metaDirs, written, renamed, recorded⟩

theorem view_ne_file_of_put {front : List Name}
    (beginning : front <+: key.bucket :: "data".toList :: dirs) (data : Bytes) :
    backend.view host before front ≠ some (.file data) := by
  obtain ⟨first, second, third, fourth, bytes, made, -⟩ := put_cases spells done
  exact Node.look_ne_file_of_mkdirs (Node.mkdirs_of_createDirAll made)
    ((prefix_append_right_inj _).mpr beginning) data

theorem view_put : ∃ bytes, ∀ rest, backend.view host after rest =
    if rest = key.bucket :: ".meta".toList :: "objects".toList ::
      (dirs ++ [last ++ ".meta".toList]) then some (.file bytes)
    else if rest = key.bucket :: "data".toList :: (dirs ++ [last]) then some (.file data)
    else if rest = key.bucket :: "data".toList :: (dirs ++ [stem last ++ ".tmp".toList]) then none
    else if rest <+: key.bucket :: ".meta".toList :: "objects".toList :: dirs then some .dir
    else if rest <+: key.bucket :: "data".toList :: dirs then some .dir
    else backend.view host before rest := by
  obtain ⟨first, second, third, fourth, bytes, dataDirs, metaDirs, written, renamed, recorded⟩ :=
    put_cases spells done
  have atTemp := Node.look_write written
  obtain ⟨content, seen, atData⟩ := Node.look_rename (by simp) renamed
  rw [atTemp, if_pos rfl] at seen
  cases seen
  refine ⟨bytes, fun rest => ?_⟩
  unfold view
  rw [Node.look_write recorded, atData, atTemp, Node.look_createDirAll metaDirs,
    Node.look_createDirAll dataDirs]
  simp only [append_cancel_left_eq, prefix_append_right_inj]
  -- nothing is left of the temporary file
  by_cases atTemp : rest = key.bucket :: "data".toList :: (dirs ++ [stem last ++ ".tmp".toList])
  · rw [if_pos atTemp, if_pos atTemp]
  · rw [if_neg atTemp, if_neg atTemp, if_neg atTemp]

end Put

theorem bucketsDir_append_ne_nil (rest : List Name) : backend.bucketsDir host ++ rest ≠ [] := by
  unfold bucketsDir Host.target
  rw [(IsName.spells (by decide)).locate_join, resolve_append]
  simp

/-- What is seen after a `delete`. Whether the metadata is removed is left open. -/
theorem view_delete (spells : Spells key.key (dirs ++ [last]))
    (done : backend.delete host key before = .ok () after) :
    ∃ removed : Bool, ∀ rest, backend.view host after rest =
      if removed ∧ rest = key.bucket :: ".meta".toList :: "objects".toList ::
        (dirs ++ [last ++ ".meta".toList]) then none
      else if rest = key.bucket :: "data".toList :: (dirs ++ [last]) then none
      else backend.view host before rest := by
  unfold delete at done
  rw [target_dataPath spells, target_metaPath spells] at done
  split at done
  · cases done
  · cases done
  · next between removedData =>
    have seen := (Node.look_removeFile (bucketsDir_append_ne_nil _) removedData).2
    split at done
    · next last removedMeta =>
      cases done
      have alsoSeen := (Node.look_removeFile (bucketsDir_append_ne_nil _) removedMeta).2
      refine ⟨true, fun rest => ?_⟩
      unfold view
      rw [alsoSeen, seen]
      simp only [append_cancel_left_eq, true_and]
    · cases done
      refine ⟨false, fun rest => ?_⟩
      unfold view
      rw [seen]
      simp only [append_cancel_left_eq, Bool.false_eq_true, false_and, if_false]

theorem view_createBucket {name : Text} (valid : validateBucket name = .ok ())
    (done : backend.createBucket host name before = .ok () after) (rest : List Name) :
    backend.view host after rest =
      if rest <+: [name, ".meta".toList, "objects".toList] then some .dir
      else if rest <+: [name, "data".toList] then some .dir
      else backend.view host before rest := by
  unfold createBucket at done
  rw [target_bucket_join valid (by decide), target_objects valid] at done
  obtain ⟨first, dataDir, metaDir⟩ := io_bind_eq_ok_iff.mp done
  have dataDir := Node.look_createDirAll dataDir
  have metaDir := Node.look_createDirAll (io_eq_ok_iff.mp metaDir)
  unfold view
  rw [metaDir, dataDir]
  simp only [prefix_append_right_inj]

theorem view_createMultipart {timestamp now : ℕ} {upload : MultipartUpload}
    (isName : IsName (generateUploadId timestamp))
    (done : backend.createMultipart host key timestamp now before = .ok upload after) :
    upload = ⟨generateUploadId timestamp, key, now⟩ ∧
    ∃ bytes, ∀ rest, backend.view host after rest =
      if rest = [key.bucket, ".uploads".toList, upload.uploadId, "meta.msgpack".toList] then
        some (.file bytes)
      else if rest <+: [key.bucket, ".uploads".toList, upload.uploadId] then some .dir
      else backend.view host before rest := by
  unfold createMultipart uploadMetaPath at done
  rw [pathExists_bind] at done
  obtain ⟨-, done⟩ := require_bind_eq_ok_iff.mp done
  obtain ⟨first, made, done⟩ := io_bind_eq_ok_iff.mp done
  obtain ⟨_, written, done⟩ := io_bind_eq_ok_iff.mp done
  obtain ⟨rfl, rfl⟩ := pure_eq_ok_iff.mp done
  rw [target_uploadPath isName] at made
  rw [target_upload_join isName (by decide)] at written
  refine ⟨rfl, host.uploadMetas.toBytes
    ⟨key.bucket, key.key, generateUploadId timestamp, now⟩, fun rest => ?_⟩
  unfold view
  rw [Node.look_write written, Node.look_createDirAll made]
  simp only [append_cancel_left_eq, prefix_append_right_inj]

def partName (partNumber : UInt32) : Name := "part.".toList ++ paddedDigits 5 partNumber.toNat

theorem slash_not_mem_toDigits (number : ℕ) : '/' ∉ Nat.toDigits 16 number := by
  have digit : ∀ value : Fin 16, '/' ≠ Nat.digitChar value := by decide
  induction number using Nat.strongRecOn with
  | ind number ih =>
    rw [Nat.toDigits_eq_if (by decide)]
    split_ifs with small
    · rw [mem_singleton]
      exact digit ⟨number, small⟩
    · rw [mem_append, mem_singleton, not_or]
      exact ⟨ih (number / 16) (by omega), digit ⟨number % 16, Nat.mod_lt _ (by decide)⟩⟩

theorem isName_generateUploadId (timestamp : ℕ) : IsName (generateUploadId timestamp) := by
  have long : 32 ≤ (generateUploadId timestamp).length := by
    unfold generateUploadId paddedHex
    rw [length_append, length_replicate]
    omega
  refine ⟨?_, fun short => ?_, fun short => ?_, fun short => ?_⟩
  · unfold generateUploadId paddedHex
    rw [mem_append, not_or]
    refine ⟨fun zero => ?_, slash_not_mem_toDigits timestamp⟩
    cases eq_of_mem_replicate zero
  · simp [short] at long
  · simp [short] at long
  · simp [short] at long

theorem partName_injective {first second : UInt32} (same : partName first = partName second) :
    first = second := by
  have padding (width number : ℕ) :
      Nat.ofDigitChars 10 (paddedDigits width number) 0 = number := by
    unfold paddedDigits
    rw [Nat.ofDigitChars_append, Nat.ofDigitChars_replicate_zero, Nat.mul_zero,
      Nat.ofDigitChars_toDigits (by decide) le_rfl]
  have numbers := congrArg (Nat.ofDigitChars 10 · 0) (append_cancel_left same)
  simp only [padding] at numbers
  exact UInt32.toNat_inj.mp numbers

theorem partName_ne_meta (partNumber : UInt32) : partName partNumber ≠ "meta.msgpack".toList := by
  intro same
  cases (List.cons.inj same).1

theorem isName_partName (partNumber : UInt32) : IsName (partName partNumber) := by
  -- the first letter of the name is no dot
  refine ⟨slash_not_mem_partName partNumber.toNat, cons_ne_nil _ _, ?_, ?_⟩
  · intro same
    cases (List.cons.inj same).1
  · intro same
    cases (List.cons.inj same).1

section Uploads
variable {upload : MultipartUpload} (isName : IsName upload.uploadId)
include isName

theorem target_partPath (partNumber : UInt32) :
    host.target (backend.partPath upload.key upload.uploadId partNumber) =
      ⟨backend.bucketsDir host ++ [upload.key.bucket, ".uploads".toList, upload.uploadId,
        partName partNumber], false⟩ :=
  target_upload_join isName (isName_partName partNumber)

theorem requireUpload_eq_ok (done : backend.requireUpload host upload before = .ok () after) :
    before = after ∧ backend.view host before
      [upload.key.bucket, ".uploads".toList, upload.uploadId] ≠ none := by
  unfold requireUpload at done
  rw [pathExists_bind, target_uploadPath isName] at done
  obtain ⟨there, rfl⟩ := require_eq_ok_iff.mp done
  refine ⟨rfl, fun absent => ?_⟩
  unfold view at absent
  unfold Node.exists? at there
  rw [absent] at there
  cases there

theorem view_uploadPart {partNumber : UInt32} {data : Bytes} {info : PartInfo}
    (done : backend.uploadPart host upload partNumber data before = .ok info after) :
    backend.view host before [upload.key.bucket, ".uploads".toList, upload.uploadId] ≠ none ∧
    ∀ rest, backend.view host after rest =
      if rest = [upload.key.bucket, ".uploads".toList, upload.uploadId, partName partNumber] then
        some (.file data)
      else backend.view host before rest := by
  unfold uploadPart at done
  obtain ⟨-, done⟩ := require_bind_eq_ok_iff.mp done
  obtain ⟨⟨⟩, _, found, done⟩ := bind_eq_ok_iff.mp done
  obtain ⟨rfl, present⟩ := requireUpload_eq_ok isName found
  obtain ⟨_, written, done⟩ := io_bind_eq_ok_iff.mp done
  obtain ⟨-, rfl⟩ := pure_eq_ok_iff.mp done
  rw [target_partPath isName] at written
  refine ⟨present, fun rest => ?_⟩
  unfold view
  rw [Node.look_write written]
  simp only [append_cancel_left_eq]

theorem assemble_eq_ok {parts : List PartInfo} {data : Bytes}
    (done : backend.assemble host upload parts before = .ok data after) :
    before = after ∧ ∃ pieces, data = pieces.flatten ∧
      List.Forall₂ (fun part piece => backend.view host before [upload.key.bucket,
        ".uploads".toList, upload.uploadId, partName part.partNumber] = some (.file piece))
        parts pieces := by
  induction parts generalizing data with
  | nil =>
    obtain ⟨rfl, rfl⟩ := pure_eq_ok_iff.mp done
    exact ⟨rfl, [], rfl, .nil⟩
  | cons part rest ih =>
    unfold assemble at done
    rw [pathExists_bind] at done
    obtain ⟨-, done⟩ := require_bind_eq_ok_iff.mp done
    obtain ⟨piece, _, found, done⟩ := bind_eq_ok_iff.mp done
    obtain ⟨seen, rfl⟩ := readFile_eq_ok found
    obtain ⟨others, _, assembled, done⟩ := bind_eq_ok_iff.mp done
    obtain ⟨rfl, rfl⟩ := pure_eq_ok_iff.mp done
    obtain ⟨rfl, pieces, rfl, read⟩ := ih assembled
    rw [target_partPath isName] at seen
    exact ⟨rfl, piece :: pieces, rfl, .cons seen read⟩

theorem view_removeUpload (removed : before.removeDirAll
      (host.target (backend.uploadPath upload.key upload.uploadId)) = .ok after)
    (rest : List Name) : backend.view host after rest =
      if [upload.key.bucket, ".uploads".toList, upload.uploadId] <+: rest then none
      else backend.view host before rest := by
  rw [target_uploadPath isName] at removed
  unfold view
  rw [Node.look_removeDirAll (bucketsDir_append_ne_nil _) removed]
  simp only [prefix_append_right_inj]

theorem view_abortMultipart (done : backend.abortMultipart host upload before = .ok () after)
    (rest : List Name) : backend.view host after rest =
      if [upload.key.bucket, ".uploads".toList, upload.uploadId] <+: rest then none
      else backend.view host before rest := by
  unfold abortMultipart at done
  obtain ⟨⟨⟩, _, found, done⟩ := bind_eq_ok_iff.mp done
  obtain ⟨rfl, -⟩ := requireUpload_eq_ok isName found
  exact view_removeUpload isName (io_eq_ok_iff.mp done) rest

/-- Completing an upload stores what its parts are, and then removes them. -/
theorem completeMultipart_cases {parts : List PartInfo} {now : ℕ} {metadata : ObjectMeta}
    (done : backend.completeMultipart host upload parts now before = .ok metadata after) :
    ∃ pieces between,
      List.Forall₂ (fun part piece => backend.view host before [upload.key.bucket,
        ".uploads".toList, upload.uploadId, partName part.partNumber] = some (.file piece))
        (parts.insertionSort fun first second => first.partNumber ≤ second.partNumber) pieces ∧
      backend.put host upload.key pieces.flatten {} now before = .ok metadata between ∧
      ∀ rest, backend.view host after rest =
        if [upload.key.bucket, ".uploads".toList, upload.uploadId] <+: rest then none
        else backend.view host between rest := by
  unfold completeMultipart at done
  obtain ⟨⟨⟩, _, found, done⟩ := bind_eq_ok_iff.mp done
  obtain ⟨rfl, -⟩ := requireUpload_eq_ok isName found
  obtain ⟨data, _, assembled, done⟩ := bind_eq_ok_iff.mp done
  obtain ⟨rfl, pieces, rfl, read⟩ := assemble_eq_ok isName assembled
  obtain ⟨_, between, stored, done⟩ := bind_eq_ok_iff.mp done
  obtain ⟨_, removed, done⟩ := io_bind_eq_ok_iff.mp done
  obtain ⟨rfl, rfl⟩ := pure_eq_ok_iff.mp done
  exact ⟨pieces, between, read, stored, view_removeUpload isName removed⟩

end Uploads

variable {key : ObjectKey} {names : List Name} (spells : Spells key.key names)
include spells

theorem get_of_file {data : Bytes}
    (seen : backend.view host before (key.bucket :: "data".toList :: names) = some (.file data)) :
    backend.get host key before = .ok data before := by
  have found : before.read (host.target (backend.dataPath key)) = .ok data := by
    rw [target_dataPath spells]
    exact Node.read_eq_ok_iff.mpr ⟨seen, rfl⟩
  unfold get
  rw [found]

theorem get_of_absent
    (absent : backend.view host before (key.bucket :: "data".toList :: names) = none)
    (noFile : ∀ front, front <+: backend.bucketsDir host ++ key.bucket :: "data".toList :: names →
      ∀ data, before.look front ≠ some (.file data)) :
    backend.get host key before = .error (.objectNotFound key.bucket key.key) before := by
  have missing : before.read (host.target (backend.dataPath key)) = .error .notFound := by
    rw [target_dataPath spells, Node.read]
    unfold view at absent
    rw [absent]
    exact congrArg Except.error (Node.missing_eq_notFound fun front below _ => noFile front below)
  unfold get
  rw [missing]

end LocalBackend

end Warp.Store
