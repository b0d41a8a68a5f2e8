import Mathlib.Data.List.Sort
import Warp.Foundation.LexicalPath
import Warp.Store.MetadataStateMachine

/-! # Raft snapshots on disk

The manager writes a snapshot of the metadata to a file and keeps a description of the latest one in
the database. The description is read back without its path, so that it does not lead to the file
(`SnapshotManager.current_not_restorable`). The hash, the serialisations and the clock are
parameters.
-/

namespace Warp.Store

open LexicalPath (Path join)

structure SnapshotConfig where
  snapshotDir : Path
  maxSnapshots : ℕ

inductive SnapshotError where
  | io (message : String)
  | serialization (message : String)
  | storage (message : String)
  | checksumMismatch
  deriving DecidableEq

structure SnapshotRecord (Membership Time : Type) where
  id : Text
  lastLogId : LogId
  membership : StoredMembership Membership
  sizeBytes : ℕ
  checksum : Text
  createdAt : Time
  deriving DecidableEq

structure SnapshotInfo (Membership Time : Type) extends SnapshotRecord Membership Time where
  path : Path
  deriving DecidableEq

structure Disk where
  files : Table Path Bytes
  unnamed : files.lookup [] = none

namespace Disk

def noSuchFile : String := "No such file or directory (os error 2)"

def empty : Disk := ⟨∅, rfl⟩

def read (disk : Disk) (path : Path) : Except String Bytes :=
  match disk.files.lookup path with
  | some data => .ok data
  | none => .error noSuchFile

def write (disk : Disk) (path : Path) (data : Bytes) : Except String Disk :=
  if named : path = [] then .error noSuchFile
  else .ok ⟨disk.files.insert path data, by
    rw [AList.lookup_insert_ne (Ne.symm named)]
    exact disk.unnamed⟩

def removeFile (disk : Disk) (path : Path) : Disk where
  files := disk.files.erase path
  unnamed := by
    rw [Table.lookup_erase_eq, disk.unnamed, ite_self]

theorem read_nil (disk : Disk) : disk.read [] = .error noSuchFile := by
  simp only [read, disk.unnamed]

end Disk

/-- Errors that the operating system or the database may give in one call. -/
structure SnapshotFaults where
  write : Option String := none
  insertCurrent : Option String := none
  getIndex : Option String := none
  insertIndex : Option String := none
  readDir : Option String := none

structure SnapshotManager where
  config : SnapshotConfig
  disk : Disk
  currentSnapshot : Option Bytes
  snapshotIndex : Option UInt64

namespace SnapshotManager

variable {BucketConfig ObjectMetadataEntry Membership Time : Type}
variable (records : Serde (SnapshotRecord Membership Time))
variable (serde : Serde (MetadataSnapshot BucketConfig ObjectMetadataEntry Membership))
variable (hash : Bytes → Text)
variable (manager : SnapshotManager)

/-- Create a new snapshot manager over a database without snapshots. -/
def new (config : SnapshotConfig) : SnapshotManager := ⟨config, .empty, none, none⟩

/-- Get the current snapshot metadata. The skipped path is the default one. -/
def getCurrentSnapshot : Option (SnapshotInfo Membership Time) :=
  match manager.currentSnapshot with
  | none => none
  | some bytes =>
    match records.fromBytes bytes with
    | .error _ => none
    | .ok record => some ⟨record, []⟩

def snapshotName (logId : LogId) : Text :=
  "snapshot-".toList ++ (toString logId.leaderId.term).toList ++ ['-'] ++
    (toString logId.index).toList

def describe (now : Time) (name : Text) : Option (SnapshotInfo Membership Time) :=
  let path := join manager.config.snapshotDir name
  if "snapshot-".toList <+: name then
    match manager.disk.read path with
    | .error _ => none
    | .ok data =>
      match serde.fromBytes data with
      | .error _ => none
      | .ok snapshot =>
        snapshot.lastAppliedLog.map fun lastLogId =>
          { id := name, lastLogId, membership := snapshot.lastMembership
            sizeBytes := data.length, checksum := hash data, createdAt := now, path }
  else none

/-- List all available snapshots, the latest first. The directory is read in the order `names`. -/
def listSnapshots (now : Time) (names : List Text) (faults : SnapshotFaults) :
    Except SnapshotError (List (SnapshotInfo Membership Time)) :=
  match faults.readDir with
  | some message => .error (.io message)
  | none =>
    .ok ((names.filterMap (manager.describe serde hash now)).insertionSort
      fun first second => second.lastLogId.index ≤ first.lastLogId.index)

def cleanupOldSnapshots (now : Time) (names : List Text) (faults : SnapshotFaults) :
    Except SnapshotError Unit × SnapshotManager :=
  match manager.listSnapshots serde hash now names faults with
  | .error error => (.error error, manager)
  | .ok snapshots =>
    -- Nothing is dropped of a list that is not too long.
    (.ok (), { manager with
      disk := (snapshots.drop manager.config.maxSnapshots).foldl
        (fun disk info => disk.removeFile info.path) manager.disk })

def incrementSnapshotIndex (faults : SnapshotFaults) :
    Except SnapshotError UInt64 × SnapshotManager :=
  match faults.getIndex with
  | some message => (.error (.storage message), manager)
  | none =>
    let newIndex := manager.snapshotIndex.getD 0 + 1
    match faults.insertIndex with
    | some message => (.error (.storage message), manager)
    | none => (.ok newIndex, { manager with snapshotIndex := some newIndex })

/-- What follows the file of a new snapshot: its description, the counter and the cleanup. -/
def register (info : SnapshotInfo Membership Time) (names : List Text) (faults : SnapshotFaults) :
    Except SnapshotError (SnapshotInfo Membership Time) × SnapshotManager :=
  match faults.insertCurrent with
  | some message => (.error (.storage message), manager)
  | none =>
    let saved := { manager with
      currentSnapshot := some (records.toBytes info.toSnapshotRecord) }
    match saved.incrementSnapshotIndex faults with
    | (.error error, counted) => (.error error, counted)
    | (.ok _, counted) =>
      match counted.cleanupOldSnapshots serde hash info.createdAt names faults with
      | (.error error, cleaned) => (.error error, cleaned)
      | (.ok (), cleaned) => (.ok info, cleaned)

def createSnapshot (machine : MetadataStateMachine BucketConfig ObjectMetadataEntry Membership)
    (lastApplied : LogId) (membership : StoredMembership Membership) (now : Time)
    (names : List Text) (faults : SnapshotFaults) :
    Except SnapshotError (SnapshotInfo Membership Time) × SnapshotManager :=
  let snapshotBytes := serde.toBytes ⟨machine.toCatalog, some lastApplied, membership⟩
  let snapshotId := snapshotName lastApplied
  let snapshotPath := join manager.config.snapshotDir snapshotId
  match faults.write with
  | some message => (.error (.io message), manager)
  | none =>
    match manager.disk.write snapshotPath snapshotBytes with
    | .error message => (.error (.io message), manager)
    | .ok disk =>
      { manager with disk }.register records serde hash
        { id := snapshotId, lastLogId := lastApplied, membership
          sizeBytes := snapshotBytes.length, checksum := hash snapshotBytes
          createdAt := now, path := snapshotPath } names faults

def restoreSnapshot (info : SnapshotInfo Membership Time)
    (machine : MetadataStateMachine BucketConfig ObjectMetadataEntry Membership) :
    Except SnapshotError Unit × MetadataStateMachine BucketConfig ObjectMetadataEntry Membership :=
  match manager.disk.read info.path with
  | .error message => (.error (.io message), machine)
  | .ok data =>
    if hash data ≠ info.checksum then (.error .checksumMismatch, machine)
    else
      match serde.fromBytes data with
      | .error message => (.error (.serialization message), machine)
      | .ok snapshot => (.ok (), { machine with toCatalog := snapshot.toCatalog })

section Restoring
variable {records} {serde} {hash} {manager}
variable {info : SnapshotInfo Membership Time} {after : SnapshotManager}
variable {names : List Text} {faults : SnapshotFaults}

theorem currentSnapshot_of_incrementSnapshotIndex {result : Except SnapshotError UInt64}
    (increment : manager.incrementSnapshotIndex faults = (result, after)) :
    after.currentSnapshot = manager.currentSnapshot := by
  have kept := congrArg (fun answer => answer.2.currentSnapshot) increment
  rw [← kept]
  unfold incrementSnapshotIndex
  split
  · rfl
  · dsimp only
    split
    · rfl
    · rfl

theorem currentSnapshot_of_cleanupOldSnapshots {now : Time} {result : Except SnapshotError Unit}
    (cleanup : manager.cleanupOldSnapshots serde hash now names faults = (result, after)) :
    after.currentSnapshot = manager.currentSnapshot := by
  have kept := congrArg (fun answer => answer.2.currentSnapshot) cleanup
  rw [← kept]
  unfold cleanupOldSnapshots
  split
  · rfl
  · rfl

theorem register_eq_ok {given : SnapshotInfo Membership Time}
    (registered : manager.register records serde hash given names faults = (.ok info, after)) :
    info = given ∧ after.currentSnapshot = some (records.toBytes given.toSnapshotRecord) := by
  unfold register at registered
  split at registered
  · cases registered
  · dsimp only at registered
    split at registered
    · cases registered
    · rename_i increment
      split at registered
      · cases registered
      · rename_i cleanup
        obtain ⟨⟨⟩, ⟨⟩⟩ := registered
        refine ⟨rfl, ?_⟩
        rw [currentSnapshot_of_cleanupOldSnapshots cleanup,
          currentSnapshot_of_incrementSnapshotIndex increment]

/-- A restore replaces buckets and objects; the log position stays that of the machine. -/
theorem restoreSnapshot_eq_ok
    {machine restored : MetadataStateMachine BucketConfig ObjectMetadataEntry Membership}
    (restore : manager.restoreSnapshot serde hash info machine = (.ok (), restored)) :
    ∃ data snapshot, manager.disk.read info.path = .ok data ∧ hash data = info.checksum ∧
      serde.fromBytes data = .ok snapshot ∧
      restored = { machine with toCatalog := snapshot.toCatalog } := by
  unfold restoreSnapshot at restore
  split at restore
  · cases restore
  · rename_i data found
    split_ifs at restore with intact
    · cases restore
    · split at restore
      · cases restore
      · rename_i snapshot decoded
        obtain ⟨-, rfl⟩ := Prod.mk.inj restore
        exact ⟨data, snapshot, found, not_not.mp intact, decoded, rfl⟩

variable {machine : MetadataStateMachine BucketConfig ObjectMetadataEntry Membership}
  {lastApplied : LogId} {membership : StoredMembership Membership} {now : Time}
  (created : manager.createSnapshot records serde hash machine lastApplied membership now names
    faults = (.ok info, after))
include created

theorem createSnapshot_eq_ok :
    after.currentSnapshot = some (records.toBytes info.toSnapshotRecord) := by
  unfold createSnapshot at created
  dsimp only at created
  split at created
  · cases created
  · split at created
    · cases created
    · obtain ⟨rfl, saved⟩ := register_eq_ok created
      exact saved

/-- **The current snapshot cannot be restored.** Its description in the database has lost the
path of the file, and reading the empty path fails. -/
theorem current_not_restorable (readable : records.fromBytes (records.toBytes info.toSnapshotRecord) =
      .ok info.toSnapshotRecord)
    (receiver : MetadataStateMachine BucketConfig ObjectMetadataEntry Membership) :
    ∃ current, after.getCurrentSnapshot records = some current ∧
      current = { info with path := [] } ∧
      after.restoreSnapshot serde hash current receiver =
        (.error (.io Disk.noSuchFile), receiver) := by
  refine ⟨{ info with path := [] }, ?_, rfl, ?_⟩
  · simp only [getCurrentSnapshot, createSnapshot_eq_ok created, readable]
  · simp only [restoreSnapshot, Disk.read_nil]

end Restoring

open MetadataStateMachine (sampleBytes sampleSnapshot sampleSerde)

/-- The BLAKE3 hash of the sample's bytes. -/
def sampleChecksum : Text :=
  "9c0b46d005b96b186c59942ca84d209b51156afa5c8ffeb81d589266ff88f263".toList

def sampleRecord : SnapshotRecord Unit Text where
  id := "snapshot-1-1".toList
  lastLogId := ⟨⟨1, 1⟩, 1⟩
  membership := ⟨none, ()⟩
  sizeBytes := 19
  checksum := sampleChecksum
  createdAt := "2026-01-01T00:00:00Z".toList

/-- An array of the fields, the path left out. -/
def sampleRecordBytes : Bytes :=
  let ascii (text : Text) : Bytes := text.map fun char => char.toNat.toUInt8
  [0x96, 0xac] ++ ascii sampleRecord.id ++ [0x92, 0x92, 0x01, 0x01, 0x01, 0x92, 0xc0, 0x92, 0x90,
    0x80, 0x13, 0xd9, 0x40] ++ ascii sampleChecksum ++ [0xb4] ++ ascii sampleRecord.createdAt

def sampleRecords : Serde (SnapshotRecord Unit Text) where
  toBytes _ := sampleRecordBytes
  fromBytes bytes :=
    if bytes = sampleRecordBytes then .ok sampleRecord else .error "invalid type"

def sampleHash (bytes : Bytes) : Text := if bytes = sampleBytes then sampleChecksum else []

def sampleCreation : Except SnapshotError (SnapshotInfo Unit Text) × SnapshotManager :=
  (new ⟨"raft".toList, 3⟩).createSnapshot sampleRecords sampleSerde sampleHash
    ⟨sampleSnapshot.toCatalog, some ⟨⟨1, 1⟩, 1⟩, ⟨none, ()⟩, 0⟩ ⟨⟨1, 1⟩, 1⟩ ⟨none, ()⟩
    "2026-01-01T00:00:00Z".toList ["snapshot-1-1".toList] {}

def sampleInfo : SnapshotInfo Unit Text := ⟨sampleRecord, "raft/snapshot-1-1".toList⟩

theorem sampleCreation_fst : sampleCreation.1 = .ok sampleInfo := by
  decide

/-- The snapshot with one bucket is current and not restored. -/
theorem current_not_restorable_sample :
    ∃ current, sampleCreation.2.getCurrentSnapshot sampleRecords = some current ∧
      (sampleCreation.2.restoreSnapshot sampleSerde sampleHash current .new).1 =
        .error (.io Disk.noSuchFile) := by
  have created : sampleCreation = (.ok sampleInfo, sampleCreation.2) :=
    Prod.ext sampleCreation_fst rfl
  obtain ⟨current, found, -, failed⟩ := current_not_restorable created rfl .new
  exact ⟨current, found, congrArg Prod.fst failed⟩

/-- The creation succeeds and its file is there, but the current snapshot is not restored. -/
theorem sample_not_restored :
    sampleCreation.1 = .ok sampleInfo ∧
      sampleCreation.2.disk.read sampleInfo.path = .ok sampleBytes ∧
      ¬ ∃ current restored, sampleCreation.2.getCurrentSnapshot sampleRecords = some current ∧
        sampleCreation.2.restoreSnapshot sampleSerde sampleHash current .new =
          (.ok (), restored) := by
  refine ⟨sampleCreation_fst, by decide, ?_⟩
  rintro ⟨current, restored, found, restore⟩
  obtain rfl : current = ⟨sampleRecord, []⟩ := Option.some.inj (found.symm.trans (by decide))
  obtain ⟨data, -, read, -⟩ := restoreSnapshot_eq_ok restore
  rw [Disk.read_nil] at read
  cases read

end SnapshotManager

end Warp.Store
