import Warp.Foundation.DelayedReplica
import Warp.Store.MetadataStateMachine

/-! # The replicated metadata store

An operation writes its request to the Raft log, waits until it is applied, and then applies it to a
cache that reads are served from. The response of the state machine is not looked at: success means
that the change was made exactly if the request is applicable
(`RaftStore.success_means_change_iff`).

As long as no cache update overtakes a request on the same bucket or object, the cache is the
replicated state whenever no operation is under way (`RaftCalls.cache_is_replicated`).
-/

namespace Warp.Store

open Option AList Catalog MetadataRequest Table Prod

inductive RaftError where
  | raft (message : String)
  deriving DecidableEq

inductive MetadataCall (BucketConfig ObjectMetadataEntry : Type) where
  | createBucket (name : Text) (config : BucketConfig)
  | deleteBucket (name : Text)
  | putObjectMetadata (key : ObjectKey) (metadata : ObjectMetadataEntry)
  | deleteObjectMetadata (key : ObjectKey)

/-- The machine that applies the Raft log, and the local cache for reads. -/
structure RaftStore (BucketConfig ObjectMetadataEntry Membership : Type) where
  machine : MetadataStateMachine BucketConfig ObjectMetadataEntry Membership
  metadataCache : MetadataStateMachine BucketConfig ObjectMetadataEntry Membership

variable {BucketConfig ObjectMetadataEntry Membership : Type}

def MetadataCall.request : MetadataCall BucketConfig ObjectMetadataEntry →
    MetadataRequest BucketConfig ObjectMetadataEntry
  | .createBucket name config => .createBucket name config
  | .deleteBucket name => .deleteBucket name
  | .putObjectMetadata key metadata => .putObjectMeta key metadata
  | .deleteObjectMetadata key => .deleteObjectMeta key

namespace RaftStore

def new [Inhabited Membership] : RaftStore BucketConfig ObjectMetadataEntry Membership :=
  ⟨.new, .new⟩

variable (store : RaftStore BucketConfig ObjectMetadataEntry Membership)

/-- Submit a write request to Raft, which commits it under a log ID or fails. -/
def write (raft : Except String LogId)
    (request : MetadataRequest BucketConfig ObjectMetadataEntry) :
    Except RaftError MetadataResponse × RaftStore BucketConfig ObjectMetadataEntry Membership :=
  match raft with
  | .error failure => (.error (.raft ("Write failed: " ++ failure)), store)
  | .ok logId =>
    let (response, machine) := store.machine.applyEntry ⟨logId, .normal request⟩
    (.ok response, { store with machine := machine })

def updateCache (request : MetadataRequest BucketConfig ObjectMetadataEntry) :
    RaftStore BucketConfig ObjectMetadataEntry Membership :=
  { store with metadataCache := (store.metadataCache.applyRequest request).2 }

section
variable (raft : Except String LogId)

def replicate (request : MetadataRequest BucketConfig ObjectMetadataEntry) :
    Except RaftError Unit × RaftStore BucketConfig ObjectMetadataEntry Membership :=
  let (answer, written) := store.write raft request
  match answer with
  | .error failure => (.error failure, written)
  | .ok _ => (.ok (), written.updateCache request)

def createBucket (name : Text) (config : BucketConfig) :
    Except RaftError Unit × RaftStore BucketConfig ObjectMetadataEntry Membership :=
  store.replicate raft (.createBucket name config)

def deleteBucket (name : Text) :
    Except RaftError Unit × RaftStore BucketConfig ObjectMetadataEntry Membership :=
  store.replicate raft (.deleteBucket name)

def putObjectMetadata (key : ObjectKey) (metadata : ObjectMetadataEntry) :
    Except RaftError Unit × RaftStore BucketConfig ObjectMetadataEntry Membership :=
  store.replicate raft (.putObjectMeta key metadata)

def deleteObjectMetadata (key : ObjectKey) :
    Except RaftError Unit × RaftStore BucketConfig ObjectMetadataEntry Membership :=
  store.replicate raft (.deleteObjectMeta key)

def operate : MetadataCall BucketConfig ObjectMetadataEntry →
    Except RaftError Unit × RaftStore BucketConfig ObjectMetadataEntry Membership
  | .createBucket name config => store.createBucket raft name config
  | .deleteBucket name => store.deleteBucket raft name
  | .putObjectMetadata key metadata => store.putObjectMetadata raft key metadata
  | .deleteObjectMetadata key => store.deleteObjectMetadata raft key

end

theorem operate_eq (raft : Except String LogId)
    (call : MetadataCall BucketConfig ObjectMetadataEntry) :
    store.operate raft call = store.replicate raft call.request := by
  cases call <;> rfl

end RaftStore

section Responses

namespace MetadataRequest

/-- There is something for the request to change. -/
def Applicable (catalog : Catalog BucketConfig ObjectMetadataEntry) :
    MetadataRequest BucketConfig ObjectMetadataEntry → Prop
  | .createBucket name _ => catalog.buckets.lookup name = none
  | .deleteBucket name => (catalog.buckets.lookup name).isSome
  | .putObjectMeta key _ => (catalog.buckets.lookup key.bucket).isSome
  | .deleteObjectMeta key => (catalog.objects.lookup key.toText).isSome
  | .updateBucketConfig name _ => (catalog.buckets.lookup name).isSome

def effect (catalog : Catalog BucketConfig ObjectMetadataEntry) :
    MetadataRequest BucketConfig ObjectMetadataEntry → Catalog BucketConfig ObjectMetadataEntry
  | .createBucket name config | .updateBucketConfig name config =>
    { catalog with buckets := catalog.buckets.insert name config }
  | .deleteBucket name => ⟨catalog.buckets.erase name,
      catalog.objects.filter fun key _ => !decide (name ++ ['/'] <+: key)⟩
  | .putObjectMeta key metadata =>
    { catalog with objects := catalog.objects.insert key.toText metadata }
  | .deleteObjectMeta key => { catalog with objects := catalog.objects.erase key.toText }

/-- The requested change, between two states of the metadata. -/
def Changes (before after : Catalog BucketConfig ObjectMetadataEntry) :
    MetadataRequest BucketConfig ObjectMetadataEntry → Prop
  | .createBucket name config =>
    before.buckets.lookup name = none ∧ after.buckets.lookup name = some config
  | .deleteBucket name =>
    (before.buckets.lookup name).isSome ∧ after.buckets.lookup name = none
  | .putObjectMeta key metadata => after.objects.lookup key.toText = some metadata
  | .deleteObjectMeta key =>
    (before.objects.lookup key.toText).isSome ∧ after.objects.lookup key.toText = none
  | .updateBucketConfig name config => after.buckets.lookup name = some config

end MetadataRequest

variable {catalog : Catalog BucketConfig ObjectMetadataEntry}
  {request : MetadataRequest BucketConfig ObjectMetadataEntry}

theorem Catalog.apply_of_applicable (applicable : request.Applicable catalog) :
    catalog.apply request = (.ok, request.effect catalog) := by
  cases request with
  | createBucket name config =>
    have missing : catalog.buckets.lookup name = none := applicable
    simp only [Catalog.apply, missing]
    rfl
  | deleteBucket name =>
    obtain ⟨config, found⟩ := isSome_iff_exists.mp applicable
    simp only [Catalog.apply, found]
    rfl
  | putObjectMeta key metadata =>
    obtain ⟨config, found⟩ := isSome_iff_exists.mp applicable
    simp only [Catalog.apply, found]
    rfl
  | deleteObjectMeta key =>
    obtain ⟨metadata, found⟩ := isSome_iff_exists.mp applicable
    simp only [Catalog.apply, found]
    rfl
  | updateBucketConfig name config =>
    obtain ⟨previous, found⟩ := isSome_iff_exists.mp applicable
    simp only [Catalog.apply, found]
    rfl

theorem Catalog.apply_of_not_applicable (refused : ¬ request.Applicable catalog) :
    ∃ response, catalog.apply request = (response, catalog) ∧ response ≠ .ok := by
  cases request with
  | createBucket name config =>
    obtain ⟨previous, found⟩ := ne_none_iff_exists'.mp refused
    exact ⟨.bucketAlreadyExists name, by simp only [Catalog.apply, found], nofun⟩
  | deleteBucket name =>
    have missing := not_isSome_iff_eq_none.mp refused
    exact ⟨.bucketNotFound name, by simp only [Catalog.apply, missing], nofun⟩
  | putObjectMeta key metadata =>
    have missing := not_isSome_iff_eq_none.mp refused
    exact ⟨.bucketNotFound key.bucket, by simp only [Catalog.apply, missing], nofun⟩
  | deleteObjectMeta key =>
    have missing := not_isSome_iff_eq_none.mp refused
    exact ⟨.objectNotFound key.toText, by simp only [Catalog.apply, missing], nofun⟩
  | updateBucketConfig name config =>
    have missing := not_isSome_iff_eq_none.mp refused
    exact ⟨.bucketNotFound name, by simp only [Catalog.apply, missing], nofun⟩

theorem MetadataRequest.changes_effect (applicable : request.Applicable catalog) :
    request.Changes catalog (request.effect catalog) := by
  cases request with
  | createBucket name config => exact ⟨applicable, lookup_insert _⟩
  | deleteBucket name => exact ⟨applicable, lookup_erase _ _⟩
  | putObjectMeta key metadata => exact lookup_insert _
  | deleteObjectMeta key => exact ⟨applicable, lookup_erase _ _⟩
  | updateBucketConfig name config => exact lookup_insert _

/-- **When success means that the change was made.** An operation whose request is committed
succeeds in every state, so that its success means the change exactly if the request is
applicable. -/
theorem RaftStore.success_means_change_iff
    (store : RaftStore BucketConfig ObjectMetadataEntry Membership) (raft : Except String LogId)
    (call : MetadataCall BucketConfig ObjectMetadataEntry) :
    ((store.operate raft call).1 = .ok () →
      (store.machine.applyRequest call.request).1 = .ok ∧
        call.request.Changes store.machine.toCatalog
          (store.operate raft call).2.machine.toCatalog) ↔
      raft.isOk = false ∨ call.request.Applicable store.machine.toCatalog := by
  rw [store.operate_eq]
  cases raft with
  | error failure => exact iff_of_true (fun succeeded => nomatch succeeded) (.inl rfl)
  | ok logId =>
    have succeeds : (store.replicate (.ok logId) call.request).1 = .ok () := rfl
    have written : (store.replicate (.ok logId) call.request).2.machine.toCatalog =
        (store.machine.toCatalog.apply call.request).2 := rfl
    have response : (store.machine.applyRequest call.request).1 =
        (store.machine.toCatalog.apply call.request).1 := rfl
    rw [succeeds, written, response]
    by_cases applicable : call.request.Applicable store.machine.toCatalog
    · rw [apply_of_applicable applicable]
      exact iff_of_true (fun _ => ⟨rfl, changes_effect applicable⟩) (.inr applicable)
    · obtain ⟨refusal, refused, notOk⟩ := apply_of_not_applicable applicable
      rw [refused]
      refine iff_of_false (fun means => notOk (means rfl).1) ?_
      rintro (failed | applies)
      · cases failed
      · exact applicable applies

/-- Creating a bucket that exists succeeds, and the bucket keeps its configuration. -/
theorem RaftStore.create_existing_succeeds :
    let created : RaftStore ℕ Unit Unit :=
      (RaftStore.new.createBucket (.ok ⟨⟨1, 1⟩, 1⟩) "logs".toList 1).2
    let again := created.createBucket (.ok ⟨⟨1, 1⟩, 2⟩) "logs".toList 2
    again.1 = .ok () ∧
      (created.machine.applyRequest (.createBucket "logs".toList 2)).1 =
        .bucketAlreadyExists "logs".toList ∧
      again.2.machine.buckets.lookup "logs".toList = some 1 := by
  decide

end Responses

/-- A store and the requests of the operations that have been committed and have not updated
the cache yet, in the order of the log. -/
structure RaftCalls (BucketConfig ObjectMetadataEntry Membership : Type) where
  store : RaftStore BucketConfig ObjectMetadataEntry Membership
  pending : List (MetadataRequest BucketConfig ObjectMetadataEntry)

/-- The two steps of an operation: its request is applied in the log, and some time later the
outstanding request at a place of the log order is applied to the cache. -/
inductive RaftEvent (BucketConfig ObjectMetadataEntry : Type) where
  | commit (logId : LogId) (call : MetadataCall BucketConfig ObjectMetadataEntry)
  | updateCache (place : ℕ)

namespace RaftCalls

def new [Inhabited Membership] : RaftCalls BucketConfig ObjectMetadataEntry Membership :=
  ⟨.new, []⟩

def step (calls : RaftCalls BucketConfig ObjectMetadataEntry Membership) :
    RaftEvent BucketConfig ObjectMetadataEntry →
      RaftCalls BucketConfig ObjectMetadataEntry Membership
  | .commit logId call =>
    ⟨(calls.store.write (.ok logId) call.request).2, calls.pending ++ [call.request]⟩
  | .updateCache place =>
    match calls.pending[place]? with
    | some request => ⟨calls.store.updateCache request, calls.pending.eraseIdx place⟩
    | none => calls

/-- An operation that nothing interferes with takes its two steps at once. -/
theorem after_operate (store : RaftStore BucketConfig ObjectMetadataEntry Membership)
    (logId : LogId) (call : MetadataCall BucketConfig ObjectMetadataEntry) :
    Run.after step ⟨store, []⟩ [.commit logId call, .updateCache 0] =
      ⟨(store.operate (.ok logId) call).2, []⟩ := by
  rw [store.operate_eq]
  rfl

end RaftCalls

/-- What a request is about: a bucket with its objects, or one object. -/
inductive Scope where
  | bucket (name : Text)
  | object (key : Text)
  deriving DecidableEq

def MetadataRequest.scope : MetadataRequest BucketConfig ObjectMetadataEntry → Scope
  | .createBucket name _ | .deleteBucket name | .updateBucketConfig name _ => .bucket name
  | .putObjectMeta key _ | .deleteObjectMeta key => .object key.toText

/-- The text of the one does not start with that of the other followed by a slash. -/
def Scope.Outside (name : Text) : Scope → Prop
  | .bucket other => ¬ name ++ ['/'] <+: other ++ ['/']
  | .object key => ¬ name ++ ['/'] <+: key

/-- Neither bucket contains the other scope, and objects are different. -/
def Scope.Apart : Scope → Scope → Prop
  | .bucket name, .bucket other =>
    Scope.Outside name (.bucket other) ∧ Scope.Outside other (.bucket name)
  | .bucket name, .object key => Scope.Outside name (.object key)
  | .object key, .bucket name => Scope.Outside name (.object key)
  | .object key, .object other => key ≠ other

instance (name : Text) (scope : Scope) : Decidable (Scope.Outside name scope) := by
  cases scope <;> unfold Scope.Outside <;> infer_instance

instance (first second : Scope) : Decidable (first.Apart second) := by
  cases first <;> cases second <;> unfold Scope.Apart <;> infer_instance

def Catalog.after (catalog : Catalog BucketConfig ObjectMetadataEntry)
    (request : MetadataRequest BucketConfig ObjectMetadataEntry) :
    Catalog BucketConfig ObjectMetadataEntry :=
  (catalog.apply request).2

inductive Cell where
  | bucket (name : Text)
  | object (key : Text)

def Catalog.view (catalog : Catalog BucketConfig ObjectMetadataEntry) :
    Cell → Option BucketConfig × Option ObjectMetadataEntry
  | .bucket name => (catalog.buckets.lookup name, none)
  | .object key => (none, catalog.objects.lookup key)

def Scope.writes : Scope → Set Cell
  | .bucket name =>
    { cell | cell = .bucket name ∨ ∃ key, cell = .object key ∧ name ++ ['/'] <+: key }
  | .object key => {.object key}

/-- The cells that a request may read: for an object, its bucket too. -/
def Scope.reads : Scope → Set Cell
  | .bucket name => writes (.bucket name)
  | .object key =>
    { cell | cell = .object key ∨ ∃ name, cell = .bucket name ∧ name ++ ['/'] <+: key }

theorem Scope.writes_subset_reads : (scope : Scope) → scope.writes ⊆ scope.reads
  | .bucket _ => subset_rfl
  | .object _ => fun _ written => .inl written

theorem Scope.Apart.not_mem_reads {first second : Scope} (apart : first.Apart second) :
    ∀ cell ∈ first.writes, cell ∉ second.reads := by
  intro cell written read
  cases first with
  | bucket name =>
    cases second with
    | bucket other =>
      rcases written with rfl | ⟨key, rfl, inside⟩
      · rcases read with same | ⟨_, same, -⟩
        · exact apart.1 (Cell.bucket.inj same ▸ List.prefix_rfl)
        · cases same
      · rcases read with same | ⟨_, ⟨⟩, insideOther⟩
        · cases same
        · rcases List.prefix_or_prefix_of_prefix inside insideOther with within | within
          · exact apart.1 within
          · exact apart.2 within
    | object key =>
      rcases written with rfl | ⟨query, rfl, inside⟩
      · rcases read with same | ⟨_, same, within⟩
        · cases same
        · exact apart (Cell.bucket.inj same ▸ within)
      · rcases read with same | ⟨_, same, -⟩
        · exact apart (Cell.object.inj same ▸ inside)
        · cases same
  | object key =>
    obtain rfl : cell = .object key := written
    cases second with
    | bucket name =>
      rcases read with same | ⟨_, same, inside⟩
      · cases same
      · exact apart (Cell.object.inj same ▸ inside)
    | object other =>
      rcases read with same | ⟨_, same, -⟩
      · exact apart (Cell.object.inj same)
      · cases same

theorem Scope.Apart.symm {first second : Scope} (apart : first.Apart second) :
    second.Apart first := by
  cases first with
  | bucket name =>
    cases second with
    | bucket other => exact ⟨apart.2, apart.1⟩
    | object key => exact apart
  | object key =>
    cases second with
    | bucket name => exact apart
    | object other => exact Ne.symm apart

section Effects
variable {first second catalog : Catalog BucketConfig ObjectMetadataEntry}
  {request : MetadataRequest BucketConfig ObjectMetadataEntry} {cell : Cell}

theorem Catalog.after_of_applicable (applicable : request.Applicable catalog) :
    catalog.after request = request.effect catalog :=
  congrArg snd (apply_of_applicable applicable)

theorem Catalog.after_of_not_applicable (refused : ¬ request.Applicable catalog) :
    catalog.after request = catalog := by
  obtain ⟨_, unchanged, -⟩ := apply_of_not_applicable refused
  exact congrArg snd unchanged

theorem MetadataRequest.view_effect_of_not_mem (unwritten : cell ∉ request.scope.writes) :
    (request.effect catalog).view cell = catalog.view cell := by
  cases request with
  | createBucket name config | updateBucketConfig name config =>
    cases cell with
    | bucket query =>
      have other : query ≠ name := fun same => unwritten (.inl (congrArg Cell.bucket same))
      exact congrArg (·, none) (lookup_insert_ne other)
    | object query => rfl
  | deleteBucket name =>
    cases cell with
    | bucket query =>
      have other : query ≠ name := fun same => unwritten (.inl (congrArg Cell.bucket same))
      exact congrArg (·, none) (lookup_erase_ne other)
    | object query =>
      have outside : ¬ name ++ ['/'] <+: query := fun inside =>
        unwritten (.inr ⟨query, rfl, inside⟩)
      simp only [effect, Catalog.view, lookup_filter, outside]
      cases catalog.objects.lookup query <;> rfl
  | putObjectMeta key metadata =>
    cases cell with
    | bucket query => rfl
    | object query =>
      have other : query ≠ key.toText := fun same => unwritten (congrArg Cell.object same)
      exact congrArg (none, ·) (lookup_insert_ne other)
  | deleteObjectMeta key =>
    cases cell with
    | bucket query => rfl
    | object query =>
      have other : query ≠ key.toText := fun same => unwritten (congrArg Cell.object same)
      exact congrArg (none, ·) (lookup_erase_ne other)

theorem MetadataRequest.view_effect_congr (same : first.view cell = second.view cell) :
    (request.effect first).view cell = (request.effect second).view cell := by
  cases cell with
  | bucket query =>
    have found : first.buckets.lookup query = second.buckets.lookup query := congrArg fst same
    cases request <;>
      simp only [effect, Catalog.view, lookup_insert_eq, lookup_erase_eq, found]
  | object query =>
    have found : first.objects.lookup query = second.objects.lookup query := congrArg snd same
    cases request <;>
      simp only [effect, Catalog.view, lookup_insert_eq, lookup_erase_eq, lookup_filter, found]

variable (same : ∀ cell ∈ request.scope.reads, first.view cell = second.view cell)
include same

theorem MetadataRequest.applicable_congr :
    request.Applicable first ↔ request.Applicable second := by
  cases request with
  | createBucket name _ | deleteBucket name | updateBucketConfig name _ =>
    have found : first.buckets.lookup name = second.buckets.lookup name :=
      congrArg fst (same (.bucket name) (.inl rfl))
    simp only [Applicable, found]
  | putObjectMeta key metadata =>
    have found : first.buckets.lookup key.bucket = second.buckets.lookup key.bucket :=
      congrArg fst (same (.bucket key.bucket) (.inr ⟨key.bucket, rfl, key.prefix_toText⟩))
    simp only [Applicable, found]
  | deleteObjectMeta key =>
    have found : first.objects.lookup key.toText = second.objects.lookup key.toText :=
      congrArg snd (same (.object key.toText) (.inl rfl))
    simp only [Applicable, found]

omit same in
theorem Catalog.view_after_of_not_mem (unwritten : cell ∉ request.scope.writes) :
    (catalog.after request).view cell = catalog.view cell := by
  by_cases applicable : request.Applicable catalog
  · rw [after_of_applicable applicable]
    exact view_effect_of_not_mem unwritten
  · rw [after_of_not_applicable applicable]

theorem Catalog.view_after_congr (written : cell ∈ request.scope.writes) :
    (first.after request).view cell = (second.after request).view cell := by
  have here := same cell (request.scope.writes_subset_reads written)
  have alike := applicable_congr same
  by_cases applicable : request.Applicable first
  · rw [after_of_applicable applicable, after_of_applicable (alike.mp applicable)]
    exact view_effect_congr here
  · rw [after_of_not_applicable applicable, after_of_not_applicable (mt alike.mpr applicable)]
    exact here

end Effects

theorem Catalog.footprint (request : MetadataRequest BucketConfig ObjectMetadataEntry) :
    DelayedReplica.Footprint Catalog.view (Catalog.after · request) request.scope.reads
      request.scope.writes where
  own := request.scope.writes_subset_reads
  frame := fun _ _ unwritten => view_after_of_not_mem unwritten
  reading := fun _ _ same _ written => view_after_congr same written

/-- The order of requests on scopes apart does not matter. -/
theorem Catalog.confluent :
    DelayedReplica.Confluent (@Catalog.after BucketConfig ObjectMetadataEntry)
      (DelayedReplica.Alike Catalog.view) fun first second => first.scope.Apart second.scope :=
  DelayedReplica.confluent_of_footprints Catalog.footprint fun apart =>
    ⟨apart.not_mem_reads, apart.symm.not_mem_reads⟩

namespace RaftCalls

/-- A cache update overtakes no request whose scope meets that of its own. -/
def Orderly (calls : RaftCalls BucketConfig ObjectMetadataEntry Membership) :
    RaftEvent BucketConfig ObjectMetadataEntry → Prop
  | .commit _ _ => True
  | .updateCache place =>
    ∀ request ∈ calls.pending[place]?, ∀ earlier ∈ calls.pending.take place,
      earlier.scope.Apart request.scope

/-- The metadata and the cache as a log and a copy that follows it. -/
def replica (calls : RaftCalls BucketConfig ObjectMetadataEntry Membership) :
    DelayedReplica (Catalog BucketConfig ObjectMetadataEntry)
      (MetadataRequest BucketConfig ObjectMetadataEntry) :=
  ⟨calls.store.machine.toCatalog, calls.store.metadataCache.toCatalog, calls.pending⟩

def translate : RaftEvent BucketConfig ObjectMetadataEntry →
    DelayedReplica.Event (MetadataRequest BucketConfig ObjectMetadataEntry)
  | .commit _ call => .append call.request
  | .updateCache place => .catchUp place

theorem replica_step (calls : RaftCalls BucketConfig ObjectMetadataEntry Membership)
    (event : RaftEvent BucketConfig ObjectMetadataEntry) :
    (calls.step event).replica = calls.replica.step Catalog.after (translate event) := by
  cases event with
  | commit logId call => rfl
  | updateCache place =>
    simp only [step, translate, DelayedReplica.step, replica]
    cases calls.pending[place]? <;> rfl

theorem Orderly.overtakes {calls : RaftCalls BucketConfig ObjectMetadataEntry Membership}
    {event : RaftEvent BucketConfig ObjectMetadataEntry} (orderly : calls.Orderly event) :
    calls.replica.Overtakes (fun first second => first.scope.Apart second.scope)
      (translate event) := by
  cases event with
  | commit logId call => trivial
  | updateCache place => exact orderly

/-- The cache serves the buckets and objects of the replicated state. -/
def CacheCurrent (store : RaftStore BucketConfig ObjectMetadataEntry Membership) : Prop :=
  (∀ name, store.metadataCache.buckets.lookup name = store.machine.buckets.lookup name) ∧
    ∀ key, store.metadataCache.objects.lookup key = store.machine.objects.lookup key

/-- **The cache is the replicated state** whenever every operation has returned, in every run
in which no cache update overtakes a request on the same bucket or object. -/
theorem cache_is_replicated [Inhabited Membership]
    {events : List (RaftEvent BucketConfig ObjectMetadataEntry)}
    (orderly : Run.Guarded step Orderly
      (new : RaftCalls BucketConfig ObjectMetadataEntry Membership) events)
    (returned : (Run.after step
      (new : RaftCalls BucketConfig ObjectMetadataEntry Membership) events).pending = []) :
    CacheCurrent (Run.after step
      (new : RaftCalls BucketConfig ObjectMetadataEntry Membership) events).store := by
  have seen := Run.view_after replica_step
    (new : RaftCalls BucketConfig ObjectMetadataEntry Membership) events
  have done : (Run.after (DelayedReplica.step Catalog.after)
      (new : RaftCalls BucketConfig ObjectMetadataEntry Membership).replica
      (events.map translate)).pending = [] := by
    rw [← seen]
    exact returned
  have same := Catalog.confluent.alike_after (fun _ => rfl)
    (orderly.simulate replica_step fun _ _ met => met.overtakes) done
  rw [← seen] at same
  constructor
  · intro name
    exact congrArg fst (same (.bucket name))
  · intro key
    exact congrArg snd (same (.object key))

/-- Two buckets are created, and the cache learns of the second one first. -/
def crossing : List (RaftEvent Unit Unit) :=
  [.commit ⟨⟨1, 1⟩, 1⟩ (.createBucket "logs".toList ()),
    .commit ⟨⟨1, 1⟩, 2⟩ (.createBucket "data".toList ()), .updateCache 1, .updateCache 0]

/-- The cache is right in the end. -/
theorem cache_is_replicated_crossing :
    CacheCurrent (Run.after step (new : RaftCalls Unit Unit Unit) crossing).store := by
  have orderly : Run.Guarded step Orderly (new : RaftCalls Unit Unit Unit) crossing := by
    refine ⟨trivial, trivial, ?_, ?_, trivial⟩
    · rintro _ ⟨⟩ earlier member
      rw [List.mem_singleton.mp member]
      decide
    · rintro _ ⟨⟩ earlier member
      exact absurd member List.not_mem_nil
  exact cache_is_replicated orderly rfl

/-- A bucket is created and then deleted, and the cache learns of the deletion first. -/
theorem deleted_bucket_cached :
    let calls := Run.after step (new : RaftCalls Unit Unit Unit)
      [.commit ⟨⟨1, 1⟩, 1⟩ (.createBucket "logs".toList ()),
        .commit ⟨⟨1, 1⟩, 2⟩ (.deleteBucket "logs".toList), .updateCache 1, .updateCache 0]
    calls.pending = [] ∧ ¬ CacheCurrent calls.store := by
  refine ⟨rfl, fun current => ?_⟩
  exact absurd (current.1 "logs".toList) (by decide)

end RaftCalls

end Warp.Store
