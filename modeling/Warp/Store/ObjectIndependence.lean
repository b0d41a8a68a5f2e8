import Warp.Foundation.Run
import Warp.Store.LocalBackend

/-! # Objects of the local backend

What is stored is a value for each key, changed by the calls for that key only. A run of calls that
succeed keeps the files in agreement with that (`LocalBackend.Agrees`) as long as every key is
written as names with single slashes between them, no object lies where another call puts its
temporary file, and upload IDs are not used twice.
-/

namespace Warp.Store

open FileTree LexicalPath List Function

/-- A key that is written as names with single slashes between them. -/
def ObjectKey.Regular (key : ObjectKey) : Prop :=
  ∀ piece ∈ key.key.splitOnP (· == '/'), IsName piece

instance (key : ObjectKey) : Decidable key.Regular := inferInstanceAs (Decidable (∀ _ ∈ _, _))

variable {key : ObjectKey}

theorem ObjectKey.Regular.exists_spells (regular : key.Regular) :
    ∃ dirs last, Spells key.key (dirs ++ [last]) := by
  have whole : Spells key.key _ := ⟨rfl, regular⟩
  obtain ⟨dirs, last, pieces, -⟩ := whole.cases_last
  exact ⟨dirs, last, pieces ▸ whole⟩

namespace LocalBackend

inductive BackendCall where
  | createBucket (name : Text)
  | put (key : ObjectKey) (data : Bytes) (opts : PutOptions) (now : ℕ)
  | delete (key : ObjectKey)
  | createMultipart (key : ObjectKey) (timestamp now : ℕ)
  | uploadPart (upload : MultipartUpload) (partNumber : UInt32) (data : Bytes)
  | completeMultipart (upload : MultipartUpload) (parts : List PartInfo) (now : ℕ)
  | abortMultipart (upload : MultipartUpload)

def BackendCall.object? : BackendCall → Option ObjectKey
  | .put key _ _ _ => some key
  | .delete key => some key
  | .completeMultipart upload _ _ => some upload.key
  | _ => none

structure Contents where
  objects : ObjectKey → Option Bytes
  stored : List ObjectKey
  uploads : List MultipartUpload
  parts : MultipartUpload → UInt32 → Option Bytes

variable {call : BackendCall}

namespace Contents

def empty : Contents := ⟨fun _ => none, [], [], fun _ _ => none⟩

variable (contents : Contents)

def store (key : ObjectKey) (data : Bytes) : Contents :=
  { contents with
    objects := Function.update contents.objects key (some data)
    stored := key :: contents.stored }

def erase (key : ObjectKey) : Contents :=
  { contents with objects := Function.update contents.objects key none }

def dropParts (upload : MultipartUpload) : Contents :=
  { contents with parts := Function.update contents.parts upload fun _ => none }

def assembled (upload : MultipartUpload) (parts : List PartInfo) : Bytes :=
  (parts.insertionSort fun first second => first.partNumber ≤ second.partNumber).flatMap
    fun part => (contents.parts upload part.partNumber).getD []

def record : BackendCall → Contents
  | .createBucket _ => contents
  | .put key data _ _ => contents.store key data
  | .delete key => contents.erase key
  | .createMultipart key timestamp now =>
    { contents.dropParts ⟨generateUploadId timestamp, key, now⟩ with
      uploads := ⟨generateUploadId timestamp, key, now⟩ :: contents.uploads }
  | .uploadPart upload partNumber data =>
    { contents with
      parts := Function.update contents.parts upload
        (Function.update (contents.parts upload) partNumber (some data)) }
  | .completeMultipart upload parts _ =>
    (contents.store upload.key (contents.assembled upload parts)).dropParts upload
  | .abortMultipart upload => contents.dropParts upload

/-- What a `get` is to return. -/
def answer (key : ObjectKey) : Except BackendError Bytes :=
  match contents.objects key with
  | some data => .ok data
  | none => .error (.objectNotFound key.bucket key.key)

theorem objects_store (key : ObjectKey) (data : Bytes) (other : ObjectKey) :
    (contents.store key data).objects other =
      if other = key then some data else contents.objects other := Function.update_apply _ _ _ _

theorem objects_erase (key other : ObjectKey) :
    (contents.erase key).objects other = if other = key then none else contents.objects other :=
  Function.update_apply _ _ _ _

theorem parts_dropParts (upload other : MultipartUpload) :
    (contents.dropParts upload).parts other =
      if other = upload then fun _ => none else contents.parts other :=
  Function.update_apply _ _ _ _

theorem objects_record (other : call.object? ≠ some key) :
    (contents.record call).objects key = contents.objects key := by
  cases call with
  | put stored data opts now =>
    exact (objects_store _ _ _ _).trans (if_neg fun same => other (congrArg some same.symm))
  | delete stored =>
    exact (objects_erase _ _ _).trans (if_neg fun same => other (congrArg some same.symm))
  | completeMultipart upload parts now =>
    exact (objects_store _ _ _ _).trans (if_neg fun same => other (congrArg some same.symm))
  | createBucket _ => rfl
  | createMultipart _ _ _ => rfl
  | uploadPart _ _ _ => rfl
  | abortMultipart _ => rfl

end Contents

variable (backend : LocalBackend) (host : Host)

def perform : BackendCall → Action Unit
  | .createBucket name => backend.createBucket host name
  | .put key data opts now => do
      let _ ← backend.put host key data opts now
  | .delete key => backend.delete host key
  | .createMultipart key timestamp now => do
      let _ ← backend.createMultipart host key timestamp now
  | .uploadPart upload partNumber data => do
      let _ ← backend.uploadPart host upload partNumber data
  | .completeMultipart upload parts now => do
      let _ ← backend.completeMultipart host upload parts now
  | .abortMultipart upload => backend.abortMultipart host upload

structure BackendWorld where
  files : Node Bytes
  contents : Contents

def step (world : BackendWorld) (call : BackendCall) : BackendWorld :=
  match backend.perform host call world.files with
  | .ok _ after => ⟨after, world.contents.record call⟩
  | .error _ after => ⟨after, world.contents⟩

def succeeds (world : BackendWorld) (call : BackendCall) : Bool :=
  match backend.perform host call world.files with
  | .ok _ _ => true
  | .error _ _ => false

/-- The key is regular, and no other object lies where it has its temporary file. -/
def Separate (contents : Contents) (key : ObjectKey) : Prop :=
  key.Regular ∧ ∀ other ∈ contents.stored, other ≠ key → (contents.objects other).isSome →
    backend.dataPath other ≠ backend.tempPath key
  deriving Decidable

/-- A call that does not reach into the files of other objects and uploads. -/
def Apart (contents : Contents) : BackendCall → Prop
  | .createBucket name => validateBucket name = .ok ()
  | .put key _ _ _ => backend.Separate contents key
  | .delete key => key.Regular
  | .createMultipart key timestamp _ => ∀ upload ∈ contents.uploads,
      upload.key.bucket = key.bucket → upload.uploadId ≠ generateUploadId timestamp
  | .uploadPart upload _ _ => upload ∈ contents.uploads
  | .completeMultipart upload _ _ =>
    upload ∈ contents.uploads ∧ backend.Separate contents upload.key
  | .abortMultipart upload => upload ∈ contents.uploads

instance (contents : Contents) (call : BackendCall) : Decidable (backend.Apart contents call) := by
  cases call <;> unfold Apart <;> infer_instance

/-- A call that succeeds and keeps apart. -/
def Allowed (world : BackendWorld) (call : BackendCall) : Prop :=
  backend.succeeds host world call = true ∧ backend.Apart world.contents call
  deriving Decidable

/-- One key is a directory in the path of another. -/
def Above (upper lower : ObjectKey) : Prop :=
  upper.bucket = lower.bucket ∧ upper.key ++ ['/'] <+: lower.key
  deriving Decidable

/-- A regular key which, unless it is stored, has never been a directory of a stored key and has
no stored object as a directory. -/
def Readable (contents : Contents) (key : ObjectKey) : Prop :=
  key.Regular ∧ (contents.objects key = none → ∀ other ∈ contents.stored,
    ¬ Above key other ∧ ((contents.objects other).isSome → ¬ Above other key))
  deriving Decidable

section Agreement

structure ObjectsAgree (files : Node Bytes) (contents : Contents) : Prop where
  top : backend.view host files [] = some .dir
  shallow : ∀ rest data, backend.view host files rest = some (.file data) → 3 ≤ rest.length
  objects : ∀ bucket names data, names ≠ [] →
    (backend.view host files (bucket :: "data".toList :: names) = some (.file data) ↔
      ∃ key : ObjectKey, key.bucket = bucket ∧ Spells key.key names ∧
        contents.objects key = some data)
  directories : ∀ bucket names, names ≠ [] →
    backend.view host files (bucket :: "data".toList :: names) = some .dir →
      ∃ key ∈ contents.stored, key.bucket = bucket ∧
        ∃ rest, rest ≠ [] ∧ Spells key.key (names ++ rest)
  stored : ∀ key data, contents.objects key = some data → key ∈ contents.stored

structure UploadsAgree (files : Node Bytes) (contents : Contents) : Prop where
  known : ∀ bucket uploadId rest,
    backend.view host files (bucket :: ".uploads".toList :: uploadId :: rest) ≠ none →
      ∃ upload ∈ contents.uploads, upload.key.bucket = bucket ∧ upload.uploadId = uploadId
  distinct : ∀ first ∈ contents.uploads, ∀ second ∈ contents.uploads,
    first.key.bucket = second.key.bucket → first.uploadId = second.uploadId → first = second
  named : ∀ upload ∈ contents.uploads, IsName upload.uploadId
  parts : ∀ upload ∈ contents.uploads, ∀ partNumber,
    backend.view host files [upload.key.bucket, ".uploads".toList, upload.uploadId,
      partName partNumber] = (contents.parts upload partNumber).map .file

variable {backend host} {before after : Node Bytes} {contents changed : Contents} {bucket : Text}
  {data : Bytes} {partNumber : UInt32} {info : PartInfo} {metadata : ObjectMeta}
  {upload : MultipartUpload} {parts : List PartInfo} {names : List Name} {other : ObjectKey}
  {now : ℕ} {path : List Name}

theorem ObjectsAgree.of_data_eq (agrees : backend.ObjectsAgree host before contents)
    (sameObjects : changed.objects = contents.objects)
    (sameStored : changed.stored = contents.stored)
    (top : backend.view host after [] = some .dir)
    (shallow : ∀ rest data, backend.view host after rest = some (.file data) → 3 ≤ rest.length)
    (same : ∀ bucket names, names ≠ [] →
      backend.view host after (bucket :: "data".toList :: names) =
        backend.view host before (bucket :: "data".toList :: names)) :
    backend.ObjectsAgree host after changed where
  top := top
  shallow := shallow
  objects := fun bucket names data named => by
    rw [same bucket names named, sameObjects]
    exact agrees.objects bucket names data named
  directories := fun bucket names named => by
    rw [same bucket names named, sameStored]
    exact agrees.directories bucket names named
  stored := by
    rw [sameObjects, sameStored]
    exact agrees.stored

theorem UploadsAgree.of_uploads_eq (agrees : backend.UploadsAgree host before contents)
    (sameUploads : changed.uploads = contents.uploads) (sameParts : changed.parts = contents.parts)
    (same : ∀ bucket uploadId rest,
      backend.view host after (bucket :: ".uploads".toList :: uploadId :: rest) =
        backend.view host before (bucket :: ".uploads".toList :: uploadId :: rest)) :
    backend.UploadsAgree host after changed where
  known := fun bucket uploadId rest => by
    rw [same, sameUploads]
    exact agrees.known bucket uploadId rest
  distinct := by
    rw [sameUploads]
    exact agrees.distinct
  named := by
    rw [sameUploads]
    exact agrees.named
  parts := fun upload member partNumber => by
    rw [same, sameParts]
    exact agrees.parts upload (sameUploads ▸ member) partNumber

theorem eq_of_spells {first second : ObjectKey} (sameBucket : first.bucket = second.bucket)
    (spellsFirst : Spells first.key names) (spellsSecond : Spells second.key names) :
    first = second := by
  cases first
  cases second
  cases sameBucket
  cases spellsFirst.eq_intercalate.trans spellsSecond.eq_intercalate.symm
  rfl

theorem ne_of_spells (spells : Spells key.key path)
    (elsewhere : ¬ (bucket = key.bucket ∧ names = path)) (sameBucket : other.bucket = bucket)
    (spelled : Spells other.key names) : other ≠ key := by
  rintro rfl
  exact elsewhere ⟨sameBucket.symm, spelled.pieces.symm.trans spells.pieces⟩

/-- A change to one object leaves the files in the places of the others as they should be. -/
theorem ObjectsAgree.objects_of_ne (agrees : backend.ObjectsAgree host before contents)
    (spells : Spells key.key path)
    (unchanged : ∀ other ≠ key, changed.objects other = contents.objects other)
    (elsewhere : ¬ (bucket = key.bucket ∧ names = path)) (named : names ≠ []) (content : Bytes) :
    backend.view host before (bucket :: "data".toList :: names) = some (.file content) ↔
      ∃ other : ObjectKey, other.bucket = bucket ∧ Spells other.key names ∧
        changed.objects other = some content := by
  rw [agrees.objects bucket names content named]
  refine exists_congr fun other => and_congr_right fun sameBucket =>
    and_congr_right fun spelled => ?_
  rw [unchanged other (ne_of_spells spells elsewhere sameBucket spelled)]

theorem data_ne_meta : "data".toList ≠ ".meta".toList := by decide

/-- An object in the place of the temporary file would be another one that is stored. -/
theorem absent_of_temp (agrees : backend.ObjectsAgree host before contents)
    (separate : backend.Separate contents key) {dirs : List Name} {last : Name}
    (spells : Spells key.key (dirs ++ [last])) (different : other ≠ key)
    (sameBucket : other.bucket = key.bucket)
    (spelled : Spells other.key (dirs ++ [stem last ++ ".tmp".toList])) :
    contents.objects other = none := by
  cases stored : contents.objects other with
  | none => rfl
  | some content =>
    have apart := separate.2 other (agrees.stored other content stored) different (by simp [stored])
    exact absurd (dataPath_eq_tempPath spells sameBucket spelled) apart

section Put
variable {key : ObjectKey} {dirs : List Name} {last : Name}
  (spells : Spells key.key (dirs ++ [last])) {data : Bytes} {opts : PutOptions} {now : ℕ}
  {metadata : ObjectMeta} (done : backend.put host key data opts now before = .ok metadata after)
include spells done

theorem view_put_data (bucket : Text) (names : List Name) :
    backend.view host after (bucket :: "data".toList :: names) =
      if bucket = key.bucket ∧ names = dirs ++ [last] then some (.file data)
      else if bucket = key.bucket ∧ names = dirs ++ [stem last ++ ".tmp".toList] then none
      else if bucket = key.bucket ∧ names <+: dirs then some .dir
      else backend.view host before (bucket :: "data".toList :: names) := by
  obtain ⟨bytes, seen⟩ := view_put spells done
  rw [seen]
  simp

theorem view_put_uploads (bucket : Text) (rest : List Name) :
    backend.view host after (bucket :: ".uploads".toList :: rest) =
      backend.view host before (bucket :: ".uploads".toList :: rest) := by
  obtain ⟨bytes, seen⟩ := view_put spells done
  rw [seen]
  simp

theorem view_put_top : backend.view host after [] = some .dir := by
  obtain ⟨bytes, seen⟩ := view_put spells done
  rw [seen]
  simp

theorem shallow_put
    (shallow : ∀ rest data, backend.view host before rest = some (.file data) → 3 ≤ rest.length)
    (rest : List Name) (content : Bytes)
    (found : backend.view host after rest = some (.file content)) : 3 ≤ rest.length := by
  obtain ⟨bytes, seen⟩ := view_put spells done
  rw [seen] at found
  split_ifs at found with isMeta isData
  · simp [isMeta]
  · simp [isData]
  · cases found
  · cases found
  · exact shallow rest content found

theorem objects_put (agrees : backend.ObjectsAgree host before contents)
    (separate : backend.Separate contents key) (named : names ≠ []) (content : Bytes) :
    backend.view host after (bucket :: "data".toList :: names) = some (.file content) ↔
      ∃ other : ObjectKey, other.bucket = bucket ∧ Spells other.key names ∧
        (contents.store key data).objects other = some content := by
  have itself : (contents.store key data).objects key = some data := by
    rw [Contents.objects_store, if_pos rfl]
  rw [view_put_data spells done]
  by_cases atKey : bucket = key.bucket ∧ names = dirs ++ [last]
  · rw [if_pos atKey]
    obtain ⟨rfl, rfl⟩ := atKey
    constructor
    · intro found
      cases found
      exact ⟨key, rfl, spells, itself⟩
    · rintro ⟨other, sameBucket, spelled, found⟩
      obtain rfl := eq_of_spells sameBucket spelled spells
      rw [itself] at found
      cases found
      rfl
  · have unchanged (other : ObjectKey) (different : other ≠ key) :
        (contents.store key data).objects other = contents.objects other := by
      rw [Contents.objects_store, if_neg different]
    rw [if_neg atKey, ← agrees.objects_of_ne spells unchanged atKey named content]
    split_ifs with atTemp atDir
    · refine iff_of_false nofun fun seen => ?_
      obtain ⟨other, sameBucket, spelled, found⟩ :=
        (agrees.objects bucket names content named).mp seen
      have different := ne_of_spells spells atKey sameBucket spelled
      have absent := absent_of_temp agrees separate spells different
        (sameBucket.trans atTemp.1) (atTemp.2 ▸ spelled)
      rw [absent] at found
      cases found
    · refine iff_of_false nofun (view_ne_file_of_put spells done ?_ content)
      rw [atDir.1]
      exact cons_prefix_cons.mpr ⟨rfl, cons_prefix_cons.mpr ⟨rfl, atDir.2⟩⟩
    · rfl

theorem objectsAgree_put (agrees : backend.ObjectsAgree host before contents)
    (separate : backend.Separate contents key) :
    backend.ObjectsAgree host after (contents.store key data) where
  top := view_put_top spells done
  shallow := shallow_put spells done agrees.shallow
  objects := fun _ _ content named => objects_put spells done agrees separate named content
  directories := fun bucket names named found => by
    rw [view_put_data spells done] at found
    split_ifs at found with atKey atTemp atDir
    · cases found
    · obtain ⟨rest, whole⟩ := atDir.2
      refine ⟨key, mem_cons_self, atDir.1.symm, rest ++ [last], by simp, ?_⟩
      rw [← append_assoc, whole]
      exact spells
    · obtain ⟨other, member, rest⟩ := agrees.directories bucket names named found
      exact ⟨other, mem_cons_of_mem _ member, rest⟩
  stored := fun other content found => by
    rw [Contents.objects_store] at found
    split_ifs at found with same
    · exact same ▸ mem_cons_self
    · exact mem_cons_of_mem _ (agrees.stored other content found)

end Put

section Delete
variable {key : ObjectKey} {dirs : List Name} {last : Name}
  (spells : Spells key.key (dirs ++ [last]))
  (done : backend.delete host key before = .ok () after)
include spells done

theorem view_delete_data (bucket : Text) (names : List Name) :
    backend.view host after (bucket :: "data".toList :: names) =
      if bucket = key.bucket ∧ names = dirs ++ [last] then none
      else backend.view host before (bucket :: "data".toList :: names) := by
  obtain ⟨removed, seen⟩ := view_delete spells done
  rw [seen]
  simp

theorem view_delete_uploads (bucket : Text) (rest : List Name) :
    backend.view host after (bucket :: ".uploads".toList :: rest) =
      backend.view host before (bucket :: ".uploads".toList :: rest) := by
  obtain ⟨removed, seen⟩ := view_delete spells done
  rw [seen]
  simp

theorem objectsAgree_delete (agrees : backend.ObjectsAgree host before contents) :
    backend.ObjectsAgree host after (contents.erase key) where
  top := by
    obtain ⟨removed, seen⟩ := view_delete spells done
    rw [seen, if_neg (fun both => nomatch both.2), if_neg nofun]
    exact agrees.top
  shallow := fun rest content found => by
    obtain ⟨removed, seen⟩ := view_delete spells done
    rw [seen] at found
    split_ifs at found
    exact agrees.shallow rest content found
  objects := fun bucket names content named => by
    rw [view_delete_data spells done]
    by_cases atKey : bucket = key.bucket ∧ names = dirs ++ [last]
    · rw [if_pos atKey]
      obtain ⟨rfl, rfl⟩ := atKey
      refine iff_of_false nofun ?_
      rintro ⟨other, sameBucket, spelled, found⟩
      obtain rfl := eq_of_spells sameBucket spelled spells
      rw [Contents.objects_erase, if_pos rfl] at found
      cases found
    · rw [if_neg atKey]
      refine agrees.objects_of_ne spells (fun other different => ?_) atKey named content
      rw [Contents.objects_erase, if_neg different]
  directories := fun bucket names named found => by
    rw [view_delete_data spells done] at found
    split_ifs at found
    exact agrees.directories bucket names named found
  stored := fun other content found => by
    rw [Contents.objects_erase] at found
    split_ifs at found
    exact agrees.stored other content found

end Delete

section Uploads
variable {upload : MultipartUpload}

section Create
variable {key : ObjectKey} {timestamp now : ℕ} {created : MultipartUpload}
  (done : backend.createMultipart host key timestamp now before = .ok created after)
include done

theorem view_createMultipart_of_ne {uploadId : Text}
    (different : ¬ (bucket = key.bucket ∧ uploadId = generateUploadId timestamp)) (rest : List Name) :
    backend.view host after (bucket :: ".uploads".toList :: uploadId :: rest) =
      backend.view host before (bucket :: ".uploads".toList :: uploadId :: rest) := by
  obtain ⟨rfl, bytes, seen⟩ := view_createMultipart (isName_generateUploadId timestamp) done
  rw [seen, if_neg, if_neg]
  · simp only [cons_prefix_cons]
    exact fun same => different ⟨same.1, same.2.2.1⟩
  · simp only [List.cons.injEq]
    exact fun same => different ⟨same.1, same.2.2.1⟩

theorem view_createMultipart_part (partNumber : UInt32) :
    backend.view host after [key.bucket, ".uploads".toList, generateUploadId timestamp,
      partName partNumber] = backend.view host before [key.bucket, ".uploads".toList,
        generateUploadId timestamp, partName partNumber] := by
  obtain ⟨rfl, bytes, seen⟩ := view_createMultipart (isName_generateUploadId timestamp) done
  rw [seen, if_neg, if_neg]
  · simp [cons_prefix_cons]
  · simp only [List.cons.injEq, true_and, and_true]
    exact partName_ne_meta partNumber

theorem uploadsAgree_createMultipart (agrees : backend.UploadsAgree host before contents)
    (fresh : ∀ upload ∈ contents.uploads, upload.key.bucket = key.bucket →
      upload.uploadId ≠ generateUploadId timestamp) :
    backend.UploadsAgree host after (contents.record (.createMultipart key timestamp now)) where
  known := fun bucket uploadId rest present => by
    by_cases same : bucket = key.bucket ∧ uploadId = generateUploadId timestamp
    · exact ⟨_, mem_cons_self, same.1.symm, same.2.symm⟩
    · rw [view_createMultipart_of_ne done same] at present
      obtain ⟨upload, member, rest⟩ := agrees.known bucket uploadId rest present
      exact ⟨upload, mem_cons_of_mem _ member, rest⟩
  distinct := fun first firstMember second secondMember sameBucket sameId => by
    rcases mem_cons.mp firstMember with rfl | firstOld
    · rcases mem_cons.mp secondMember with rfl | secondOld
      · rfl
      · exact absurd sameId.symm (fresh second secondOld sameBucket.symm)
    · rcases mem_cons.mp secondMember with rfl | secondOld
      · exact absurd sameId (fresh first firstOld sameBucket)
      · exact agrees.distinct first firstOld second secondOld sameBucket sameId
  named := forall_mem_cons.mpr ⟨isName_generateUploadId timestamp, agrees.named⟩
  parts := fun upload member partNumber => by
    change _ = ((contents.dropParts _).parts upload partNumber).map _
    rw [Contents.parts_dropParts]
    by_cases same : upload = ⟨generateUploadId timestamp, key, now⟩
    · rw [if_pos same, same, view_createMultipart_part done]
      by_contra present
      obtain ⟨other, old, sameBucket, sameId⟩ := agrees.known _ _ _ present
      exact fresh other old sameBucket sameId
    · have old := (mem_cons.mp member).resolve_left same
      rw [if_neg same, view_createMultipart_of_ne done, agrees.parts upload old]
      exact fun both => fresh upload old both.1 both.2

end Create

theorem UploadsAgree.dropParts (agrees : backend.UploadsAgree host before contents)
    (member : upload ∈ contents.uploads)
    (removed : ∀ rest, backend.view host after rest =
      if [upload.key.bucket, ".uploads".toList, upload.uploadId] <+: rest then none
      else backend.view host before rest) :
    backend.UploadsAgree host after (contents.dropParts upload) where
  known := fun bucket uploadId rest present => by
    refine agrees.known bucket uploadId rest fun absent => present ?_
    rw [removed, absent, ite_self]
  distinct := agrees.distinct
  named := agrees.named
  parts := fun other otherMember partNumber => by
    rw [removed, Contents.parts_dropParts]
    by_cases same : other = upload
    · rw [if_pos same, if_pos (same ▸ prefix_append _ [partName partNumber])]
      rfl
    · rw [if_neg same, if_neg, agrees.parts other otherMember]
      intro beginning
      simp only [cons_prefix_cons] at beginning
      exact same (agrees.distinct other otherMember upload member beginning.1.symm
        beginning.2.2.1.symm)

theorem uploadsAgree_uploadPart (agrees : backend.UploadsAgree host before contents)
    (member : upload ∈ contents.uploads)
    (done : backend.uploadPart host upload partNumber data before = .ok info after) :
    backend.UploadsAgree host after (contents.record (.uploadPart upload partNumber data)) := by
  obtain ⟨present, seen⟩ := view_uploadPart (agrees.named upload member) done
  refine ⟨fun bucket uploadId rest found => ?_, agrees.distinct, agrees.named,
    fun other otherMember otherNumber => ?_⟩
  · rw [seen] at found
    split_ifs at found with same
    · simp only [List.cons.injEq] at same
      exact ⟨upload, member, same.1.symm, same.2.2.1.symm⟩
    · exact agrees.known bucket uploadId rest found
  · change _ = (Function.update contents.parts upload _ other otherNumber).map _
    rw [seen]
    by_cases same : other = upload
    · subst same
      rw [update_self]
      by_cases sameNumber : otherNumber = partNumber
      · rw [if_pos (by rw [sameNumber]), sameNumber, update_self]
        rfl
      · rw [update_of_ne sameNumber, if_neg, agrees.parts other member]
        simp only [List.cons.injEq, true_and, and_true]
        exact fun sameName => sameNumber (partName_injective sameName)
    · rw [update_of_ne same, if_neg, agrees.parts other otherMember]
      simp only [List.cons.injEq]
      exact fun both => same (agrees.distinct other otherMember upload member both.1 both.2.2.1)

end Uploads

structure Agrees (backend : LocalBackend) (host : Host) (world : BackendWorld) : Prop where
  objects : backend.ObjectsAgree host world.files world.contents
  uploads : backend.UploadsAgree host world.files world.contents

section
variable (agrees : backend.Agrees host ⟨before, contents⟩)
include agrees

theorem agrees_createBucket {name : Text} (valid : validateBucket name = .ok ())
    (done : backend.createBucket host name before = .ok () after) :
    backend.Agrees host ⟨after, contents⟩ := by
  have seen := view_createBucket valid done
  constructor
  · refine agrees.objects.of_data_eq rfl rfl ?_ ?_ fun bucket names named => ?_
    · rw [seen, if_pos List.nil_prefix]
    · intro rest data found
      rw [seen] at found
      split_ifs at found
      · cases found
      · cases found
      · exact agrees.objects.shallow rest data found
    · rw [seen]
      simp only [cons_prefix_cons, data_ne_meta, prefix_nil, named, false_and, and_false, if_false]
  · refine agrees.uploads.of_uploads_eq rfl rfl fun bucket uploadId rest => ?_
    rw [seen]
    simp

theorem agrees_put (separate : backend.Separate contents key) {opts : PutOptions}
    (done : backend.put host key data opts now before = .ok metadata after) :
    backend.Agrees host ⟨after, contents.store key data⟩ := by
  obtain ⟨dirs, last, spells⟩ := separate.1.exists_spells
  exact ⟨objectsAgree_put spells done agrees.objects separate,
    agrees.uploads.of_uploads_eq rfl rfl fun bucket uploadId rest =>
      view_put_uploads spells done bucket (uploadId :: rest)⟩

theorem agrees_delete (regular : key.Regular) (done : backend.delete host key before = .ok () after) :
    backend.Agrees host ⟨after, contents.erase key⟩ := by
  obtain ⟨dirs, last, spells⟩ := regular.exists_spells
  exact ⟨objectsAgree_delete spells done agrees.objects,
    agrees.uploads.of_uploads_eq rfl rfl fun bucket uploadId rest =>
      view_delete_uploads spells done bucket (uploadId :: rest)⟩

theorem agrees_createMultipart {timestamp : ℕ} {created : MultipartUpload}
    (fresh : ∀ upload ∈ contents.uploads, upload.key.bucket = key.bucket →
      upload.uploadId ≠ generateUploadId timestamp)
    (done : backend.createMultipart host key timestamp now before = .ok created after) :
    backend.Agrees host ⟨after, contents.record (.createMultipart key timestamp now)⟩ := by
  refine ⟨?_, uploadsAgree_createMultipart done agrees.uploads fresh⟩
  obtain ⟨-, bytes, seen⟩ := view_createMultipart (isName_generateUploadId timestamp) done
  refine agrees.objects.of_data_eq rfl rfl ?_ ?_ fun bucket names named => ?_
  · rw [seen, if_neg nofun, if_pos List.nil_prefix]
  · intro rest data found
    rw [seen] at found
    split_ifs at found with isMeta
    · simp [isMeta]
    · cases found
    · exact agrees.objects.shallow rest data found
  · rw [seen]
    simp

theorem agrees_uploadPart (member : upload ∈ contents.uploads)
    (done : backend.uploadPart host upload partNumber data before = .ok info after) :
    backend.Agrees host ⟨after, contents.record (.uploadPart upload partNumber data)⟩ := by
  refine ⟨?_, uploadsAgree_uploadPart agrees.uploads member done⟩
  have seen := (view_uploadPart (agrees.uploads.named upload member) done).2
  refine agrees.objects.of_data_eq rfl rfl ?_ ?_ fun bucket names named => ?_
  · rw [seen, if_neg nofun]
    exact agrees.objects.top
  · intro rest content found
    rw [seen] at found
    split_ifs at found with isPart
    · simp [isPart]
    · exact agrees.objects.shallow rest content found
  · rw [seen]
    simp

theorem Agrees.dropParts (member : upload ∈ contents.uploads)
    (removed : ∀ rest, backend.view host after rest =
      if [upload.key.bucket, ".uploads".toList, upload.uploadId] <+: rest then none
      else backend.view host before rest) :
    backend.Agrees host ⟨after, contents.dropParts upload⟩ := by
  refine ⟨?_, agrees.uploads.dropParts member removed⟩
  refine agrees.objects.of_data_eq rfl rfl ?_ ?_ fun bucket names named => ?_
  · rw [removed, if_neg (by simp)]
    exact agrees.objects.top
  · intro rest content found
    rw [removed] at found
    split_ifs at found
    exact agrees.objects.shallow rest content found
  · rw [removed]
    simp

end

theorem flatten_eq_assembled (agrees : backend.UploadsAgree host before contents)
    (member : upload ∈ contents.uploads) {pieces : List Bytes}
    (read : List.Forall₂ (fun part piece => backend.view host before [upload.key.bucket,
      ".uploads".toList, upload.uploadId, partName part.partNumber] = some (.file piece))
      parts pieces) :
    pieces.flatten = parts.flatMap fun part =>
      (contents.parts upload part.partNumber).getD [] := by
  induction read with
  | nil => rfl
  | cons seen _ ih =>
    rw [agrees.parts upload member] at seen
    obtain ⟨piece, found, same⟩ := Option.map_eq_some_iff.mp seen
    cases same
    rw [flatten_cons, flatMap_cons, ih, found]
    rfl

theorem agrees_completeMultipart (agrees : backend.Agrees host ⟨before, contents⟩)
    (member : upload ∈ contents.uploads) (separate : backend.Separate contents upload.key)
    (done : backend.completeMultipart host upload parts now before = .ok metadata after) :
    backend.Agrees host ⟨after, contents.record (.completeMultipart upload parts now)⟩ := by
  obtain ⟨pieces, between, read, stored, removed⟩ :=
    completeMultipart_cases (agrees.uploads.named upload member) done
  have between := agrees_put agrees separate stored
  rw [flatten_eq_assembled agrees.uploads member read] at between
  exact between.dropParts member removed

/-- A call that succeeds and keeps apart keeps the agreement. -/
theorem agrees_perform (agrees : backend.Agrees host ⟨before, contents⟩)
    (apart : backend.Apart contents call) (done : backend.perform host call before = .ok () after) :
    backend.Agrees host ⟨after, contents.record call⟩ := by
  cases call with
  | createBucket name => exact agrees_createBucket agrees apart done
  | put key data opts now =>
    obtain ⟨metadata, between, stored, rest⟩ := bind_eq_ok_iff.mp done
    obtain ⟨-, rfl⟩ := pure_eq_ok_iff.mp rest
    exact agrees_put agrees apart stored
  | delete key => exact agrees_delete agrees apart done
  | createMultipart key timestamp now =>
    obtain ⟨upload, between, created, rest⟩ := bind_eq_ok_iff.mp done
    obtain ⟨-, rfl⟩ := pure_eq_ok_iff.mp rest
    exact agrees_createMultipart agrees apart created
  | uploadPart upload partNumber data =>
    obtain ⟨info, between, uploaded, rest⟩ := bind_eq_ok_iff.mp done
    obtain ⟨-, rfl⟩ := pure_eq_ok_iff.mp rest
    exact agrees_uploadPart agrees apart uploaded
  | completeMultipart upload parts now =>
    obtain ⟨metadata, between, completed, rest⟩ := bind_eq_ok_iff.mp done
    obtain ⟨-, rfl⟩ := pure_eq_ok_iff.mp rest
    exact agrees_completeMultipart agrees apart.1 apart.2 completed
  | abortMultipart upload =>
    exact agrees.dropParts apart (view_abortMultipart (agrees.uploads.named upload apart) done)

theorem agrees_step {world : BackendWorld} (agrees : backend.Agrees host world)
    (allowed : backend.Allowed host world call) :
    backend.Agrees host (backend.step host world call) := by
  obtain ⟨succeeded, apart⟩ := allowed
  unfold succeeds at succeeded
  unfold step
  cases done : backend.perform host call world.files with
  | error failure after => simp [done] at succeeded
  | ok value after => exact agrees_perform agrees apart done

end Agreement

section Reading
variable {backend host} {world : BackendWorld} {key : ObjectKey}

def reply {Value : Type} : EStateM.Result BackendError (Node Bytes) Value →
    Except BackendError Value
  | .ok value _ => .ok value
  | .error failure _ => .error failure

section Absent
variable (agrees : backend.Agrees host world) (readable : Readable world.contents key)
  (absent : world.contents.objects key = none) {names : List Name}
  (spells : Spells key.key names)
include agrees readable absent spells

variable {front : List Name}

theorem view_ne_file_of_absent (beginning : front <+: names) (named : front ≠ []) (content : Bytes) :
    backend.view host world.files (key.bucket :: "data".toList :: front) ≠
      some (.file content) := by
  intro seen
  obtain ⟨other, sameBucket, spelled, stored⟩ :=
    (agrees.objects.objects key.bucket front content named).mp seen
  obtain ⟨rest, rfl⟩ := beginning
  by_cases more : rest = []
  · rw [more, append_nil] at spells
    rw [eq_of_spells sameBucket spelled spells, absent] at stored
    cases stored
  · have member := agrees.objects.stored other content stored
    refine (readable.2 absent other member).2 (by simp [stored]) ?_
    exact ⟨sameBucket, spelled.prefix_of_append spells more⟩

theorem view_eq_none_of_absent (named : names ≠ []) :
    backend.view host world.files (key.bucket :: "data".toList :: names) = none := by
  cases seen : backend.view host world.files (key.bucket :: "data".toList :: names) with
  | none => rfl
  | some kind =>
    cases kind with
    | file content =>
      exact absurd seen (view_ne_file_of_absent agrees readable absent spells
        prefix_rfl named content)
    | dir =>
      obtain ⟨other, member, sameBucket, rest, more, spelled⟩ :=
        agrees.objects.directories key.bucket names named seen
      exact absurd ⟨sameBucket.symm, spells.prefix_of_append spelled more⟩
        (readable.2 absent other member).1

theorem look_ne_file_of_absent
    (beginning : front <+: backend.bucketsDir host ++ key.bucket :: "data".toList :: names)
    (content : Bytes) : world.files.look front ≠ some (.file content) := by
  intro seen
  have top : world.files.look (backend.bucketsDir host) = some .dir := by
    have root := agrees.objects.top
    unfold view at root
    rwa [append_nil] at root
  rcases prefix_or_prefix_of_prefix beginning (prefix_append _ _) with above | below
  · -- a file above the directory of buckets has nothing below it
    by_cases same : backend.bucketsDir host = front
    · rw [← same, top] at seen
      cases seen
    · rw [Node.look_eq_none_of_below (by simp [seen]) above same] at top
      cases top
  · obtain ⟨rest, rfl⟩ := below
    rw [prefix_append_right_inj] at beginning
    have deep := agrees.objects.shallow rest content seen
    -- deep enough to be below the data directory of the bucket
    match rest with
    | [] | [_] | [_, _] => simp at deep
    | bucket :: area :: name :: others =>
      simp only [cons_prefix_cons] at beginning
      obtain ⟨rfl, rfl, inside⟩ := beginning
      exact view_ne_file_of_absent agrees readable absent spells inside
        (cons_ne_nil _ _) content seen

end Absent

theorem reply_get (agrees : backend.Agrees host world) (readable : Readable world.contents key) :
    reply (backend.get host key world.files) = world.contents.answer key := by
  obtain ⟨dirs, last, spells⟩ := readable.1.exists_spells
  have named : dirs ++ [last] ≠ [] := by simp
  unfold Contents.answer
  cases stored : world.contents.objects key with
  | some data =>
    rw [get_of_file spells ((agrees.objects.objects key.bucket _ data named).mpr
      ⟨key, rfl, spells, stored⟩)]
    rfl
  | none =>
    rw [get_of_absent spells (view_eq_none_of_absent agrees readable stored spells named)
      fun front beginning => look_ne_file_of_absent agrees readable stored spells beginning]
    rfl

theorem agrees_new {root : Path} {before files : Node Bytes}
    (opened : LocalBackend.new host root before = .ok backend files)
    (unused : ∀ rest, rest ≠ [] → before.look (backend.bucketsDir host ++ rest) = none) :
    backend.Agrees host ⟨files, .empty⟩ := by
  unfold LocalBackend.new at opened
  obtain ⟨⟨⟩, made, created, rest⟩ := bind_eq_ok_iff.mp opened
  obtain ⟨rfl, rfl⟩ := pure_eq_ok_iff.mp rest
  have seen := Node.look_createDirAll (io_eq_ok_iff.mp created)
  have nothing (rest : List Name) (named : rest ≠ []) : view ⟨root⟩ host made rest = none := by
    unfold view
    rw [seen, unused rest named, if_neg]
    intro beginning
    exact named (append_right_eq_self.mp (beginning.eq_of_length_le (by simp [bucketsDir])))
  have top : view ⟨root⟩ host made [] = some .dir := by
    unfold view
    rw [append_nil, seen]
    exact if_pos prefix_rfl
  constructor
  · refine ⟨top, fun rest data found => ?_, fun bucket names data named => ?_,
      fun bucket names named found => ?_, nofun⟩
    · by_cases named : rest = []
      · rw [named, top] at found
        cases found
      · rw [nothing rest named] at found
        cases found
    · rw [nothing _ (cons_ne_nil _ _)]
      exact iff_of_false nofun fun ⟨_, _, _, stored⟩ => nomatch stored
    · rw [nothing _ (cons_ne_nil _ _)] at found
      cases found
  · refine ⟨fun bucket uploadId rest found => ?_, nofun, nofun, nofun⟩
    exact absurd (nothing _ (cons_ne_nil _ _)) found

theorem contents_step (succeeded : backend.succeeds host world call = true) :
    (backend.step host world call).contents = world.contents.record call := by
  unfold succeeds at succeeded
  unfold step
  cases done : backend.perform host call world.files with
  | error failure after => simp [done] at succeeded
  | ok value after => rfl

/-- **Objects are independent** in every run of calls that succeed and keep apart: reading a key
gives the bytes it was last stored with, or no object if there is none, and calls for other keys
do not change that. -/
theorem objects_independent {root : Path} {before files : Node Bytes}
    (opened : LocalBackend.new host root before = .ok backend files)
    (unused : ∀ rest, rest ≠ [] → before.look (backend.bucketsDir host ++ rest) = none)
    {calls : List BackendCall}
    (allowed : Run.Guarded (backend.step host) (backend.Allowed host) ⟨files, .empty⟩ calls)
    (reached : BackendWorld)
    (run : reached = Run.after (backend.step host) ⟨files, .empty⟩ calls)
    (readable : Readable reached.contents key) :
    reply (backend.get host key reached.files) = reached.contents.answer key ∧
      ∀ call, backend.Allowed host reached call → call.object? ≠ some key →
        Readable (backend.step host reached call).contents key →
        reply (backend.get host key (backend.step host reached call).files) =
          reply (backend.get host key reached.files) := by
  have agrees : backend.Agrees host reached := by
    rw [run]
    exact Run.invariant _ (fun _ _ => agrees_step) (agrees_new opened unused) allowed
  refine ⟨reply_get agrees readable, fun call next other stillReadable => ?_⟩
  rw [reply_get agrees readable, reply_get (agrees_step agrees next) stillReadable,
    Contents.answer, Contents.answer, contents_step next.1, Contents.objects_record _ other]

end Reading

def sampleHost : Host where
  cwd := []
  hash := fun data => List.replicate 32 (UInt8.ofNat data.length)
  objectMetas := ⟨fun metadata => [UInt8.ofNat metadata.size], fun _ => .error "not needed"⟩
  uploadMetas := ⟨fun upload => [UInt8.ofNat upload.createdAt], fun _ => .error "not needed"⟩

def sampleBackend : LocalBackend := ⟨"/srv".toList⟩

/-- The files after the backend is opened on an empty file tree. -/
def sampleFiles : Node Bytes :=
  match LocalBackend.new sampleHost "/srv".toList (.dir []) with
  | .ok _ files => files
  | .error _ files => files

def sampleText : ObjectKey := ⟨"logs".toList, "a.txt".toList, by decide, by decide⟩

def sampleNested : ObjectKey := ⟨"logs".toList, "b/c".toList, by decide, by decide⟩

def sampleTemporary : ObjectKey := ⟨"logs".toList, "a.tmp".toList, by decide, by decide⟩

def sampleUpload : MultipartUpload := ⟨generateUploadId 1, sampleNested, 1⟩

def sampleCalls : List BackendCall :=
  [.createBucket "logs".toList, .put sampleText [1] {} 0, .createMultipart sampleNested 1 1,
    .uploadPart sampleUpload 2 [3], .uploadPart sampleUpload 1 [2],
    .completeMultipart sampleUpload [⟨2, [], 1⟩, ⟨1, [], 1⟩] 2, .put sampleText [4] {} 3,
    .delete sampleText]

/-- The multipart object is not touched by what happens to the other key. -/
theorem objects_independent_sample :
    let reached := Run.after (sampleBackend.step sampleHost) ⟨sampleFiles, .empty⟩ sampleCalls
    reply (sampleBackend.get sampleHost sampleNested reached.files) = .ok [2, 3] ∧
      reply (sampleBackend.get sampleHost sampleText reached.files) =
        .error (.objectNotFound "logs".toList "a.txt".toList) := by
  have opened : LocalBackend.new sampleHost "/srv".toList (.dir []) =
      .ok sampleBackend sampleFiles := rfl
  have unused (rest : List Name) (_ : rest ≠ []) :
      (Node.dir [] : Node Bytes).look (sampleBackend.bucketsDir sampleHost ++ rest) = none := rfl
  have allowed : Run.Guarded (sampleBackend.step sampleHost) (sampleBackend.Allowed sampleHost)
      ⟨sampleFiles, .empty⟩ sampleCalls := by decide +kernel
  have nested := (objects_independent opened unused allowed _ rfl
    (by decide +kernel : Readable _ sampleNested)).1
  have text := (objects_independent opened unused allowed _ rfl
    (by decide +kernel : Readable _ sampleText)).1
  exact ⟨nested, text⟩

def sampleDouble : ObjectKey := ⟨"logs".toList, "b//c".toList, by decide, by decide⟩

def sampleDirectory : ObjectKey := ⟨"logs".toList, "b".toList, by decide, by decide⟩

/-- Storing an object destroys the one that has the name of its temporary file, two spellings of
a path are one object, and a key that is a directory cannot be read as missing. -/
theorem keys_interfere :
    let reached := Run.after (sampleBackend.step sampleHost) ⟨sampleFiles, .empty⟩
    let succeed := Run.Guarded (sampleBackend.step sampleHost)
      (fun world call => sampleBackend.succeeds sampleHost world call = true)
      ⟨sampleFiles, .empty⟩
    let replaced := [BackendCall.put sampleTemporary [1] {} 0, .put sampleText [2] {} 1]
    let nested := [BackendCall.put sampleDouble [1] {} 0]
    (succeed replaced ∧ (reached replaced).contents.answer sampleTemporary = .ok [1] ∧
      reply (sampleBackend.get sampleHost sampleTemporary (reached replaced).files) =
        .error (.objectNotFound "logs".toList "a.tmp".toList)) ∧
      succeed nested ∧
      (reached nested).contents.answer sampleNested =
        .error (.objectNotFound "logs".toList "b/c".toList) ∧
      reply (sampleBackend.get sampleHost sampleNested (reached nested).files) = .ok [1] ∧
      (reached nested).contents.answer sampleDirectory =
        .error (.objectNotFound "logs".toList "b".toList) ∧
      reply (sampleBackend.get sampleHost sampleDirectory (reached nested).files) =
        .error (.io .isADirectory) := by
  decide +kernel

end LocalBackend

end Warp.Store
