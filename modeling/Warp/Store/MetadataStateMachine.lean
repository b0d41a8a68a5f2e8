import Warp.Foundation.Bytes
import Warp.Foundation.Table
import Warp.Store.ObjectKey

/-! # Raft state machine for metadata operations

The machine applies the committed entries of the Raft log to bucket configurations and object
metadata. A snapshot of it stands for the entries it has applied
(`MetadataStateMachine.snapshot_stands_for_log`). What a configuration, an entry of metadata and a
membership consist of is never read, so that they are type parameters.
-/

namespace Warp.Store

structure LeaderId where
  term : UInt64
  nodeId : UInt64
  deriving DecidableEq

structure LogId where
  leaderId : LeaderId
  index : UInt64
  deriving DecidableEq

structure StoredMembership (Membership : Type) where
  logId : Option LogId
  membership : Membership
  deriving DecidableEq

instance {Membership : Type} [Inhabited Membership] : Inhabited (StoredMembership Membership) :=
  ⟨none, default⟩

inductive MetadataRequest (BucketConfig ObjectMetadataEntry : Type) where
  | createBucket (name : Text) (config : BucketConfig)
  | deleteBucket (name : Text)
  | putObjectMeta (key : ObjectKey) (metadata : ObjectMetadataEntry)
  | deleteObjectMeta (key : ObjectKey)
  | updateBucketConfig (name : Text) (config : BucketConfig)

inductive MetadataResponse where
  | ok
  | bucketAlreadyExists (name : Text)
  | bucketNotFound (name : Text)
  | objectNotFound (key : Text)
  | error (message : Text)
  deriving DecidableEq

/-- Bucket name to configuration, and object key, as text, to metadata. -/
structure Catalog (BucketConfig ObjectMetadataEntry : Type) where
  buckets : Table Text BucketConfig
  objects : Table Text ObjectMetadataEntry

namespace Catalog

variable {BucketConfig ObjectMetadataEntry : Type}

def empty : Catalog BucketConfig ObjectMetadataEntry := ⟨∅, ∅⟩

def apply (catalog : Catalog BucketConfig ObjectMetadataEntry) :
    MetadataRequest BucketConfig ObjectMetadataEntry →
      MetadataResponse × Catalog BucketConfig ObjectMetadataEntry
  | .createBucket name config =>
    match catalog.buckets.lookup name with
    | some _ => (.bucketAlreadyExists name, catalog)
    | none => (.ok, { catalog with buckets := catalog.buckets.insert name config })
  | .deleteBucket name =>
    match catalog.buckets.lookup name with
    | none => (.bucketNotFound name, catalog)
    | some _ =>
      -- Also remove all objects in the bucket.
      (.ok, ⟨catalog.buckets.erase name,
        catalog.objects.filter fun key _ => !decide (name ++ ['/'] <+: key)⟩)
  | .putObjectMeta key metadata =>
    match catalog.buckets.lookup key.bucket with
    | none => (.bucketNotFound key.bucket, catalog)
    | some _ => (.ok, { catalog with objects := catalog.objects.insert key.toText metadata })
  | .deleteObjectMeta key =>
    match catalog.objects.lookup key.toText with
    | none => (.objectNotFound key.toText, catalog)
    | some _ => (.ok, { catalog with objects := catalog.objects.erase key.toText })
  | .updateBucketConfig name config =>
    match catalog.buckets.lookup name with
    | none => (.bucketNotFound name, catalog)
    | some _ => (.ok, { catalog with buckets := catalog.buckets.insert name config })

end Catalog

structure MetadataStateMachine (BucketConfig ObjectMetadataEntry Membership : Type) extends
    Catalog BucketConfig ObjectMetadataEntry where
  lastAppliedLog : Option LogId
  lastMembership : StoredMembership Membership
  snapshotIdx : ℕ

structure MetadataSnapshot (BucketConfig ObjectMetadataEntry Membership : Type) extends
    Catalog BucketConfig ObjectMetadataEntry where
  lastAppliedLog : Option LogId
  lastMembership : StoredMembership Membership

structure Serde (Value : Type) where
  toBytes : Value → Bytes
  fromBytes : Bytes → Except String Value

inductive EntryPayload (BucketConfig ObjectMetadataEntry Membership : Type) where
  | blank
  | normal (request : MetadataRequest BucketConfig ObjectMetadataEntry)
  | membership (membership : Membership)

structure Entry (BucketConfig ObjectMetadataEntry Membership : Type) where
  logId : LogId
  payload : EntryPayload BucketConfig ObjectMetadataEntry Membership

structure SnapshotMeta (Membership : Type) where
  lastLogId : Option LogId
  lastMembership : StoredMembership Membership
  snapshotId : String

structure Snapshot (Membership : Type) where
  info : SnapshotMeta Membership
  snapshot : Bytes

inductive StorageError where
  | readStateMachine (message : String)
  deriving DecidableEq

structure MetadataSnapshotBuilder (BucketConfig ObjectMetadataEntry Membership : Type) where
  snapshotData : MetadataSnapshot BucketConfig ObjectMetadataEntry Membership
  snapshotIdx : ℕ

variable {BucketConfig ObjectMetadataEntry Membership : Type}

/-- The snapshot's description and bytes; `showLeader` is how a leader is displayed. -/
def MetadataSnapshotBuilder.buildSnapshot
    (serde : Serde (MetadataSnapshot BucketConfig ObjectMetadataEntry Membership))
    (showLeader : LeaderId → String)
    (builder : MetadataSnapshotBuilder BucketConfig ObjectMetadataEntry Membership) :
    Snapshot Membership where
  info :=
    { lastLogId := builder.snapshotData.lastAppliedLog
      lastMembership := builder.snapshotData.lastMembership
      snapshotId :=
        match builder.snapshotData.lastAppliedLog with
        | some logId => String.intercalate "-"
            [showLeader logId.leaderId, toString logId.index, toString builder.snapshotIdx]
        | none => "0-0-" ++ toString builder.snapshotIdx }
  snapshot := serde.toBytes builder.snapshotData

namespace MetadataStateMachine

def new [Inhabited Membership] :
    MetadataStateMachine BucketConfig ObjectMetadataEntry Membership where
  toCatalog := .empty
  lastAppliedLog := none
  lastMembership := default
  snapshotIdx := 0

variable (machine : MetadataStateMachine BucketConfig ObjectMetadataEntry Membership)

def applyRequest (request : MetadataRequest BucketConfig ObjectMetadataEntry) :
    MetadataResponse × MetadataStateMachine BucketConfig ObjectMetadataEntry Membership :=
  let (response, catalog) := machine.toCatalog.apply request
  (response, { machine with toCatalog := catalog })

def applyEntry (entry : Entry BucketConfig ObjectMetadataEntry Membership) :
    MetadataResponse × MetadataStateMachine BucketConfig ObjectMetadataEntry Membership :=
  let applied := { machine with lastAppliedLog := some entry.logId }
  match entry.payload with
  | .blank => (.ok, applied)
  | .normal request => applied.applyRequest request
  | .membership membership =>
    (.ok, { applied with lastMembership := ⟨some entry.logId, membership⟩ })

def apply (machine : MetadataStateMachine BucketConfig ObjectMetadataEntry Membership) :
    List (Entry BucketConfig ObjectMetadataEntry Membership) →
      List MetadataResponse × MetadataStateMachine BucketConfig ObjectMetadataEntry Membership
  | [] => ([], machine)
  | entry :: rest =>
    let (response, applied) := machine.applyEntry entry
    let (responses, final) := applied.apply rest
    (response :: responses, final)

def snapshot : MetadataSnapshot BucketConfig ObjectMetadataEntry Membership where
  toCatalog := machine.toCatalog
  lastAppliedLog := machine.lastAppliedLog
  lastMembership := machine.lastMembership

def getSnapshotBuilder :
    MetadataSnapshotBuilder BucketConfig ObjectMetadataEntry Membership ×
      MetadataStateMachine BucketConfig ObjectMetadataEntry Membership :=
  let snapshotIdx := machine.snapshotIdx + 1
  (⟨machine.snapshot, snapshotIdx⟩, { machine with snapshotIdx := snapshotIdx })

/-- Replace the state by that of a snapshot, unless the snapshot cannot be read. -/
def installSnapshot (serde : Serde (MetadataSnapshot BucketConfig ObjectMetadataEntry Membership))
    (received : Snapshot Membership) : Except StorageError Unit ×
      MetadataStateMachine BucketConfig ObjectMetadataEntry Membership :=
  match serde.fromBytes received.snapshot with
  | .error message => (.error (.readStateMachine message), machine)
  | .ok data =>
    (.ok (), { machine with
      toCatalog := data.toCatalog
      lastAppliedLog := received.info.lastLogId
      lastMembership := received.info.lastMembership })

variable {machine} {other : MetadataStateMachine BucketConfig ObjectMetadataEntry Membership}

/-- Two machines hold the same state, up to the number of snapshots taken. -/
structure Agrees
    (machine other : MetadataStateMachine BucketConfig ObjectMetadataEntry Membership) : Prop where
  catalog : machine.toCatalog = other.toCatalog
  lastAppliedLog : machine.lastAppliedLog = other.lastAppliedLog
  lastMembership : machine.lastMembership = other.lastMembership

theorem Agrees.applyEntry (agrees : Agrees machine other)
    (entry : Entry BucketConfig ObjectMetadataEntry Membership) :
    (machine.applyEntry entry).1 = (other.applyEntry entry).1 ∧
      Agrees (machine.applyEntry entry).2 (other.applyEntry entry).2 := by
  obtain ⟨catalog, -, lastMembership⟩ := agrees
  obtain ⟨logId, payload⟩ := entry
  cases payload with
  | blank => exact ⟨rfl, catalog, rfl, lastMembership⟩
  | membership membership => exact ⟨rfl, catalog, rfl, rfl⟩
  | normal request =>
    have same : machine.toCatalog.apply request = other.toCatalog.apply request := by
      rw [catalog]
    have response := congrArg Prod.fst same
    have applied := congrArg Prod.snd same
    exact ⟨response, applied, rfl, lastMembership⟩

theorem Agrees.apply (agrees : Agrees machine other)
    (entries : List (Entry BucketConfig ObjectMetadataEntry Membership)) :
    (machine.apply entries).1 = (other.apply entries).1 ∧
      Agrees (machine.apply entries).2 (other.apply entries).2 := by
  induction entries generalizing machine other with
  | nil => exact ⟨rfl, agrees⟩
  | cons entry rest ih =>
    obtain ⟨response, applied⟩ := agrees.applyEntry entry
    obtain ⟨responses, final⟩ := ih applied
    exact ⟨congrArg₂ List.cons response responses, final⟩

theorem apply_append (machine : MetadataStateMachine BucketConfig ObjectMetadataEntry Membership)
    (first second : List (Entry BucketConfig ObjectMetadataEntry Membership)) :
    machine.apply (first ++ second) =
      ((machine.apply first).1 ++ ((machine.apply first).2.apply second).1,
        ((machine.apply first).2.apply second).2) := by
  induction first generalizing machine with
  | nil => rfl
  | cons entry rest ih =>
    simp only [List.cons_append, MetadataStateMachine.apply]
    rw [ih]

theorem length_responses
    (machine : MetadataStateMachine BucketConfig ObjectMetadataEntry Membership)
    (entries : List (Entry BucketConfig ObjectMetadataEntry Membership)) :
    (machine.apply entries).1.length = entries.length := by
  induction entries generalizing machine with
  | nil => rfl
  | cons entry rest ih => exact congrArg Nat.succ (ih _)

theorem installSnapshot_buildSnapshot
    {serde : Serde (MetadataSnapshot BucketConfig ObjectMetadataEntry Membership)}
    (readable : serde.fromBytes (serde.toBytes machine.snapshot) = .ok machine.snapshot)
    (showLeader : LeaderId → String)
    (receiver : MetadataStateMachine BucketConfig ObjectMetadataEntry Membership) :
    ∃ installed, receiver.installSnapshot serde
        (machine.getSnapshotBuilder.1.buildSnapshot serde showLeader) = (.ok (), installed) ∧
      Agrees installed machine := by
  refine ⟨{ receiver with
    toCatalog := machine.toCatalog
    lastAppliedLog := machine.lastAppliedLog
    lastMembership := machine.lastMembership }, ?_, rfl, rfl, rfl⟩
  simp only [installSnapshot, MetadataSnapshotBuilder.buildSnapshot, getSnapshotBuilder, readable]
  rfl

variable [Inhabited Membership]
  (serde : Serde (MetadataSnapshot BucketConfig ObjectMetadataEntry Membership))
  (showLeader : LeaderId → String)
  (receiver : MetadataStateMachine BucketConfig ObjectMetadataEntry Membership)
  (first second : List (Entry BucketConfig ObjectMetadataEntry Membership))

/-- A fresh machine applies the first part of a log, its snapshot is installed on a receiver,
and the receiver applies the rest. -/
def handOver :
    Except StorageError Unit × List MetadataResponse ×
      MetadataStateMachine BucketConfig ObjectMetadataEntry Membership :=
  let (builder, _) := (new.apply first).2.getSnapshotBuilder
  let (result, installed) := receiver.installSnapshot serde (builder.buildSnapshot serde showLeader)
  (result, installed.apply second)

/-- **A snapshot stands for the log it covers.** Cutting a log anywhere and handing the state
over by a snapshot leads to the state and the responses of the whole log. -/
theorem snapshot_stands_for_log
    (readable : serde.fromBytes (serde.toBytes (new.apply first).2.snapshot) =
      .ok (new.apply first).2.snapshot) :
    let handed := handOver serde showLeader receiver first second
    let whole := new.apply (first ++ second)
    handed.1 = .ok () ∧ handed.2.2.buckets = whole.2.buckets ∧
      handed.2.2.objects = whole.2.objects ∧
      handed.2.2.lastAppliedLog = whole.2.lastAppliedLog ∧
      handed.2.2.lastMembership = whole.2.lastMembership ∧
      handed.2.1 = whole.1.drop first.length := by
  obtain ⟨installed, result, agrees⟩ :=
    installSnapshot_buildSnapshot readable showLeader receiver
  obtain ⟨responses, catalog, lastAppliedLog, lastMembership⟩ := agrees.apply second
  have cut : ((new.apply first).1 ++ ((new.apply first).2.apply second).1).drop first.length =
      ((new.apply first).2.apply second).1 :=
    List.drop_left' (length_responses _ _)
  simp only [handOver, result, apply_append, cut]
  exact ⟨trivial, congrArg Catalog.buckets catalog, congrArg Catalog.objects catalog,
    lastAppliedLog, lastMembership, responses⟩

/-- The snapshot of a machine that has created one bucket. -/
def sampleSnapshot : MetadataSnapshot Unit Unit Unit :=
  ⟨⟨AList.singleton "logs".toList (), ∅⟩, some ⟨⟨1, 1⟩, 1⟩, ⟨none, ()⟩⟩

/-- Its bytes: an array of the log ID, a membership without nodes, a map with the bucket, whose
configuration is nil, and an empty map. -/
def sampleBytes : Bytes :=
  [0x94, 0x92, 0x92, 0x01, 0x01, 0x01, 0x92, 0xc0, 0x92, 0x90, 0x80,
    0x81, 0xa4, 0x6c, 0x6f, 0x67, 0x73, 0xc0, 0x80]

def sampleSerde : Serde (MetadataSnapshot Unit Unit Unit) where
  toBytes _ := sampleBytes
  fromBytes bytes := if bytes = sampleBytes then .ok sampleSnapshot else .error "invalid type"

/-- A receiver with another bucket. -/
def sampleReceiver : MetadataStateMachine Unit Unit Unit :=
  ⟨⟨AList.singleton "old".toList (), ∅⟩, none, default, 0⟩

/-- After the hand-over the receiver knows the sender's bucket, and no longer its own. -/
theorem snapshot_stands_for_log_bucket :
    (handOver sampleSerde (fun _ => "1-1") sampleReceiver
      [⟨⟨⟨1, 1⟩, 1⟩, .normal (.createBucket "logs".toList ())⟩]
      [⟨⟨⟨1, 1⟩, 2⟩, .normal (.createBucket "logs".toList ())⟩,
        ⟨⟨⟨1, 1⟩, 3⟩, .normal (.deleteBucket "old".toList)⟩]).2.1 =
      [.bucketAlreadyExists "logs".toList, .bucketNotFound "old".toList] := by
  obtain ⟨-, -, -, -, -, responses⟩ := snapshot_stands_for_log sampleSerde (fun _ => "1-1")
    sampleReceiver [⟨⟨⟨1, 1⟩, 1⟩, .normal (.createBucket "logs".toList ())⟩]
    [⟨⟨⟨1, 1⟩, 2⟩, .normal (.createBucket "logs".toList ())⟩,
      ⟨⟨⟨1, 1⟩, 3⟩, .normal (.deleteBucket "old".toList)⟩] rfl
  exact responses

end MetadataStateMachine

end Warp.Store
