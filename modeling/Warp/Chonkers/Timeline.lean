import Warp.Chonkers.Tree
import Warp.Foundation.Run

/-! # Version timelines on disk

A commit writes a tree to the file of the next number and notes the version in the timeline. Pruning
deletes the files of the versions that the timeline notes, but the newest ones and those a reference
names. A restart keeps the files; the counter and the timelines start anew. Serialisation and how
each file operation ends are parameters.
-/

namespace Warp.Chonkers

abbrev Directory := Table String Bytes

/-- How writing a file ends. A failed write leaves something in the file, or no file. -/
inductive WriteResult where
  | written
  | failed (left : Option Bytes) (message : String)

namespace Directory

def write (directory : Directory) (name : String) (content : Bytes) :
    WriteResult → Except String Unit × Directory
  | .written => (.ok (), directory.insert name content)
  | .failed left message =>
    (.error message, left.elim (directory.erase name) fun rest => directory.insert name rest)

theorem lookup_write_other (directory : Directory) {name other : String} (different : other ≠ name)
    (content : Bytes) (result : WriteResult) :
    (write directory name content result).2.lookup other = directory.lookup other := by
  cases result with
  | written => exact AList.lookup_insert_ne different
  | failed left message =>
    cases left with
    | none => exact AList.lookup_erase_ne different
    | some rest => exact AList.lookup_insert_ne different

end Directory

/-- Serialisation of trees and of the store's metadata, which is the latest version. -/
structure TreeCodec where
  encodeTree : ChonkerTree → Except String Bytes
  decodeTree : Bytes → Except String ChonkerTree
  encodeMetadata : Option VersionId → Except String Bytes

/-- What was serialised is deserialised to the same tree. -/
def TreeCodec.Lawful (codec : TreeCodec) : Prop :=
  ∀ tree bytes, codec.encodeTree tree = .ok bytes → codec.decodeTree bytes = .ok tree

namespace FileTreeStore

variable (codec : TreeCodec) (directory : Directory)

def versionPath (versionId : VersionId) : String := "v" ++ toString versionId ++ ".tree"

def metadataPath : String := "metadata.json"

def store (tree : ChonkerTree) (treeWrite metadataWrite : WriteResult) :
    Except Error Unit × Directory :=
  match codec.encodeTree tree with
  | .error failure => (.error (.internal ("Failed to serialize tree: " ++ failure)), directory)
  | .ok bytes =>
    match directory.write (versionPath tree.versionId) bytes treeWrite with
    | (.error failure, directory) =>
      (.error (.internal ("Failed to write tree file: " ++ failure)), directory)
    | (.ok (), directory) =>
      match codec.encodeMetadata (some tree.versionId) with
      | .error failure =>
        (.error (.internal ("Failed to serialize metadata: " ++ failure)), directory)
      | .ok metadata =>
        match directory.write metadataPath metadata metadataWrite with
        | (.error failure, directory) =>
          (.error (.internal ("Failed to write metadata: " ++ failure)), directory)
        | (.ok (), directory) => (.ok (), directory)

def load (versionId : VersionId) : Except Error (Option ChonkerTree) :=
  match directory.lookup (versionPath versionId) with
  | none => .ok none
  | some bytes =>
    match codec.decodeTree bytes with
    | .error failure => .error (.internal ("Failed to deserialize tree: " ++ failure))
    | .ok tree => .ok (some tree)

def delete (versionId : VersionId) (failure : Option String) : Except Error Unit × Directory :=
  match directory.lookup (versionPath versionId) with
  | none => (.ok (), directory)
  | some _ =>
    match failure with
    | none => (.ok (), directory.erase (versionPath versionId))
    | some message => (.error (.internal ("Failed to delete version: " ++ message)), directory)

end FileTreeStore

structure VersionInfo where
  id : VersionId
  parent : Option VersionId
  timestamp : ℕ
  message : Option String
  chunkCount : ℕ
  dataSize : ℕ

namespace VersionInfo

/-- The order of pruning: newest first, then by version ID. -/
def Newer (left right : VersionInfo) : Prop :=
  right.timestamp < left.timestamp ∨ right.timestamp = left.timestamp ∧ right.id ≤ left.id
  deriving Decidable

end VersionInfo

structure VersionTimeline where
  config : ChonkersConfig
  versions : Table VersionId VersionInfo
  head : Option VersionId
  refs : Table String VersionId

/-- A commit: data and message, the time, and how the files are written. -/
structure CommitRequest where
  data : Bytes
  message : Option String
  timestamp : ℕ
  treeWrite : WriteResult
  metadataWrite : WriteResult

structure Pruning where
  pruned : List VersionId
  versions : Table VersionId VersionInfo
  directory : Directory

namespace VersionTimeline

variable (overflowChecks : Bool) (hash : Bytes → ChunkId) (codec : TreeCodec)

def new (config : ChonkersConfig) : VersionTimeline := ⟨config, ∅, none, ∅⟩

variable (timeline : VersionTimeline)

def commit (versionId : VersionId) (request : CommitRequest) (directory : Directory) :
    Outcome Error VersionId × VersionTimeline × Directory :=
  match ChonkerTree.fromData overflowChecks hash timeline.config request.data versionId with
  | .error failure => (.error failure, timeline, directory)
  | .panic => (.panic, timeline, directory)
  | .ok tree =>
    let info : VersionInfo :=
      ⟨tree.versionId, timeline.head, request.timestamp, request.message, tree.leaves.length,
        tree.dataSize⟩
    match FileTreeStore.store codec directory tree request.treeWrite request.metadataWrite with
    | (.error failure, directory) => (.error failure, timeline, directory)
    | (.ok (), directory) =>
      (.ok tree.versionId, { timeline with
        versions := timeline.versions.insert tree.versionId info
        head := some tree.versionId }, directory)

/-- Delete the files of versions, one after another. The first failure ends the loop. -/
def pruneVersions (failures : VersionId → Option String) :
    List VersionInfo → Pruning → Except Error (List VersionId) × Pruning
  | [], pruning => (.ok pruning.pruned, pruning)
  | info :: rest, pruning =>
    match FileTreeStore.delete pruning.directory info.id (failures info.id) with
    | (.error failure, directory) => (.error failure, { pruning with directory })
    | (.ok (), directory) =>
      pruneVersions failures rest
        ⟨pruning.pruned ++ [info.id], pruning.versions.erase info.id, directory⟩

/-- The versions to prune: all but the most recent ones and those that a reference names. -/
def prunable (keepCount : ℕ) : List VersionInfo :=
  ((timeline.versions.values.insertionSort VersionInfo.Newer).drop keepCount).filter fun info =>
    info.id ∉ timeline.refs.values

/-- Prune old versions, keeping only the most recent ones. -/
def prune (keepCount : ℕ) (failures : VersionId → Option String) (directory : Directory) :
    Except Error (List VersionId) × Pruning :=
  pruneVersions failures (timeline.prunable keepCount) ⟨[], timeline.versions, directory⟩

end VersionTimeline

structure Session where
  /-- The next version ID, of `VersionId.generate`. -/
  counter : ℕ
  timelines : Table ℕ VersionTimeline
  directory : Directory

inductive SessionAction where
  | create (name : ℕ) (config : ChonkersConfig)
  | createRef (name : ℕ) (ref : String) (version : VersionId)
  | deleteRef (name : ℕ) (ref : String)
  | commit (name : ℕ) (request : CommitRequest)
  | prune (name keepCount : ℕ) (failures : VersionId → Option String)
  | restart

namespace Session

variable (overflowChecks : Bool) (hash : Bytes → ChunkId) (codec : TreeCodec)

def start (directory : Directory) : Session := ⟨1, ∅, directory⟩

variable (session : Session)

/-- Whether building a tree gets to the point where it takes a version ID. -/
def takesVersionId (config : ChonkersConfig) (data : Bytes) : Bool :=
  data.isEmpty || (chunk overflowChecks hash config data).succeedsWith fun _ => true

def commit (name : ℕ) (timeline : VersionTimeline) (request : CommitRequest) :
    Outcome Error VersionId × Session :=
  let (result, next, directory) :=
    timeline.commit overflowChecks hash codec session.counter request session.directory
  let counter :=
    if takesVersionId overflowChecks hash timeline.config request.data then
      (session.counter + 1) % 2 ^ 64
    else session.counter
  (result, ⟨counter, session.timelines.insert name next, directory⟩)

def prune (name : ℕ) (timeline : VersionTimeline) (keepCount : ℕ)
    (failures : VersionId → Option String) : List VersionId × Session :=
  let (_, pruning) := timeline.prune keepCount failures session.directory
  (pruning.pruned, { session with
    timelines := session.timelines.insert name { timeline with versions := pruning.versions }
    directory := pruning.directory })

def modify (name : ℕ) (change : VersionTimeline → VersionTimeline) : Session :=
  match session.timelines.lookup name with
  | some timeline => { session with timelines := session.timelines.insert name (change timeline) }
  | none => session

end Session

/-- A session and the trees of the versions that commits returned and that no prune has
deleted since. -/
structure History where
  session : Session
  live : List (VersionId × ChonkerTree)

namespace History

variable (overflowChecks : Bool) (hash : Bytes → ChunkId) (codec : TreeCodec)

/-- A process that starts over a directory in which no commit has put anything. -/
def start (directory : Directory) : History := ⟨Session.start directory, []⟩

variable (history : History)

def commit (name : ℕ) (timeline : VersionTimeline) (request : CommitRequest) : History :=
  let (result, session) :=
    history.session.commit overflowChecks hash codec name timeline request
  let built := ChonkerTree.fromData overflowChecks hash timeline.config request.data
    history.session.counter
  match result, built with
  | .ok versionId, .ok tree => ⟨session, (versionId, tree) :: history.live⟩
  | _, _ => { history with session }

def prune (name : ℕ) (timeline : VersionTimeline) (keepCount : ℕ)
    (failures : VersionId → Option String) : History :=
  let (pruned, session) := history.session.prune name timeline keepCount failures
  ⟨session, history.live.filter fun version => version.1 ∉ pruned⟩

def step : SessionAction → History
  | .create name config =>
    { history with session := { history.session with
        timelines := history.session.timelines.insert name (VersionTimeline.new config) } }
  | .createRef name ref version =>
    { history with session := history.session.modify name fun timeline =>
        { timeline with refs := timeline.refs.insert ref version } }
  | .deleteRef name ref =>
    { history with session := history.session.modify name fun timeline =>
        { timeline with refs := timeline.refs.erase ref } }
  | .commit name request =>
    match history.session.timelines.lookup name with
    | some timeline => history.commit overflowChecks hash codec name timeline request
    | none => history
  | .prune name keepCount failures =>
    match history.session.timelines.lookup name with
    | some timeline => history.prune name timeline keepCount failures
    | none => history
  | .restart => { history with session := Session.start history.session.directory }

end History

end Warp.Chonkers
