import Warp.Chonkers.Registry

/-! # What the registry keeps and what it lets go

A chunk of a registered version can be retrieved as long as no chunk is registered whose 32-bit
count is at its maximum (`ChunkRegistry.live_chunks_retained`). A chunk that no version holds is
deleted by the next collection, as long as no version registers a chunk it has
(`ChunkRegistry.released_chunks_collected`): a version's set gives only one count back.
-/

namespace Warp.Chonkers.ChunkRegistry

open List AList Nat

variable {store : ChunkStore} {overflowChecks : Bool} {id : ChunkId}

section Guards

/-- A condition on a registration: the registry before it, the chunk and the version. -/
abbrev RegistrationGuard (store : ChunkStore) :=
  ChunkRegistry store → NewChunk → VersionId → Prop

variable (overflowChecks) (guard : RegistrationGuard store) {chunks : List NewChunk}
  {version : VersionId}

/-- Every registration that a loop over chunks gets to meets the guard. -/
def RegistrationsMeet (version : VersionId) : List NewChunk → ChunkRegistry store → Prop
  | [], _ => True
  | chunk :: rest, registry =>
    guard registry chunk version ∧
      ((registry.register overflowChecks chunk version).1.succeedsWith (fun _ => true) →
        RegistrationsMeet version rest (registry.register overflowChecks chunk version).2)

/-- Every registration of a call meets the guard. -/
def Meets (registry : ChunkRegistry store) : RegistryCall → Prop
  | .register chunk version => guard registry chunk version
  | .registerVersion version chunks =>
    RegistrationsMeet overflowChecks guard version chunks registry
  | .unregisterVersion _ | .collectGarbage => True

section
variable [∀ registry chunk version, Decidable (guard registry chunk version)]

instance decidableRegistrationsMeet (version : VersionId) :
    ∀ chunks registry, Decidable (RegistrationsMeet overflowChecks guard version chunks registry)
  | [], _ => inferInstanceAs (Decidable True)
  | chunk :: rest, registry =>
    have := decidableRegistrationsMeet version rest
      (registry.register overflowChecks chunk version).2
    inferInstanceAs (Decidable (guard registry chunk version ∧
      ((registry.register overflowChecks chunk version).1.succeedsWith (fun _ => true) →
        RegistrationsMeet overflowChecks guard version rest
          (registry.register overflowChecks chunk version).2)))

instance (registry : ChunkRegistry store) :
    ∀ call, Decidable (Meets overflowChecks guard registry call)
  | .register chunk version => inferInstanceAs (Decidable (guard registry chunk version))
  | .registerVersion version chunks =>
    decidableRegistrationsMeet overflowChecks guard version chunks registry
  | .unregisterVersion _ | .collectGarbage => inferInstanceAs (Decidable True)

end

variable {guard} in
theorem registrationsMeet_of_forall
    (always : ∀ chunk ∈ chunks, ∀ registry, guard registry chunk version)
    (registry : ChunkRegistry store) :
    RegistrationsMeet overflowChecks guard version chunks registry := by
  induction chunks generalizing registry with
  | nil => trivial
  | cons chunk rest ih =>
    obtain ⟨first, others⟩ := forall_mem_cons.mp always
    exact ⟨first registry, fun _ => ih others _⟩

variable {guard} in
theorem meets_of_forall {call : RegistryCall}
    (always : ∀ chunk ∈ call.chunks, ∀ registry version, guard registry chunk version)
    (registry : ChunkRegistry store) : Meets overflowChecks guard registry call := by
  cases call with
  | register chunk version => exact always chunk (mem_singleton_self chunk) registry version
  | registerVersion version chunks =>
    exact registrationsMeet_of_forall overflowChecks
      (fun chunk member registry => always chunk member registry version) registry
  | unregisterVersion version => trivial
  | collectGarbage => trivial

/-- What every call keeps whose registrations meet the guard. -/
structure CallInvariant (holds : ChunkRegistry store → Prop) : Prop where
  register : ∀ registry chunk version, holds registry → guard registry chunk version →
    holds (registry.register overflowChecks chunk version).2
  unregisterVersion : ∀ registry version, holds registry →
    holds (registry.unregisterVersion version).2
  collectGarbage : ∀ registry, holds registry → holds registry.collectGarbage.2

variable {overflowChecks guard} {holds : ChunkRegistry store → Prop}

theorem CallInvariant.registerChunks (invariant : CallInvariant overflowChecks guard holds)
    {registry : ChunkRegistry store} (stats : RegistrationStats) (initially : holds registry)
    (meets : RegistrationsMeet overflowChecks guard version chunks registry) :
    holds (ChunkRegistry.registerChunks overflowChecks version chunks stats registry).2 := by
  induction chunks generalizing registry stats with
  | nil => exact initially
  | cons chunk rest ih =>
    have after := invariant.register registry chunk version initially meets.1
    have others := meets.2
    rw [ChunkRegistry.registerChunks]
    split
    · rename_i isNew next registered
      rw [registered] at after others
      exact ih _ after (others rfl)
    · rename_i failure next registered
      rwa [registered] at after
    · rename_i next registered
      rwa [registered] at after

theorem CallInvariant.perform (invariant : CallInvariant overflowChecks guard holds)
    (registry : ChunkRegistry store) (call : RegistryCall) (initially : holds registry)
    (meets : Meets overflowChecks guard registry call) :
    holds (registry.perform overflowChecks call) := by
  cases call with
  | register chunk version => exact invariant.register registry chunk version initially meets
  | registerVersion version chunks => exact invariant.registerChunks {} initially meets
  | unregisterVersion version => exact invariant.unregisterVersion registry version initially
  | collectGarbage => exact invariant.collectGarbage registry initially

end Guards

/-- The count of references does not wrap around. -/
def CountFits : RegistrationGuard store := fun registry chunk _ =>
  registry.refCount chunk.id + 1 < 2 ^ 32
  deriving Decidable

/-- The version does not hold the chunk yet. -/
def Unheld : RegistrationGuard store := fun registry chunk version =>
  chunk.id ∉ registry.versionChunks.heldBy version
  deriving Decidable

theorem backed_invariant : CallInvariant overflowChecks CountFits
    (fun registry : ChunkRegistry store => registry.ledger.Backed) where
  register registry chunk version backed fits := by
    have registered := registry.registered_register overflowChecks chunk version
    revert registered
    generalize (registry.register overflowChecks chunk version).2.ledger = after
    intro registered
    cases registered with
    | claimed => exact backed.claim version chunk.id
    | refused => exact backed
    | wrapped full => exact absurd full fits.ne
    | panicked full => exact absurd full fits.ne
  unregisterVersion registry version backed := by
    rw [ledger_unregisterVersion]
    exact backed.release version
  collectGarbage registry backed := by rwa [ledger_collectGarbage]

theorem tight_invariant : CallInvariant overflowChecks Unheld
    (fun registry : ChunkRegistry store => registry.ledger.Tight) where
  register registry chunk version tight unheld := by
    have registered := registry.registered_register overflowChecks chunk version
    revert registered
    generalize (registry.register overflowChecks chunk version).2.ledger = after
    intro registered
    cases registered with
    | claimed => exact tight.claim unheld
    | refused => exact tight
    | wrapped => exact (tight.recount (zero_le _)).hold version chunk.id
    | panicked => exact tight.recount (zero_le _)
  unregisterVersion registry version tight := by
    rw [ledger_unregisterVersion]
    exact tight.release version
  collectGarbage registry tight := by rwa [ledger_collectGarbage]

section Storage
variable (content : ChunkId → Bytes)

/-- The data of every chunk can be retrieved. -/
def Retrievable (registry : ChunkRegistry store) : Prop :=
  ∀ id metadata, registry.chunks.lookup id = some metadata →
    store.retrieve registry.storage id metadata.location = .ok (content id)

variable {content} {registry : ChunkRegistry store}

theorem Retrievable.setMetadata (retrievable : Retrievable content registry)
    {old new : ChunkMetadata} (found : registry.chunks.lookup id = some old)
    (same : new.location = old.location) :
    Retrievable content (registry.setMetadata id new) := by
  intro other metadata present
  rcases Table.eq_or_lookup_of_insert present with ⟨rfl, rfl⟩ | ⟨-, present⟩
  · rw [same]
    exact retrievable other old found
  · exact retrievable other metadata present

theorem Retrievable.register (lawful : store.Lawful) (retrievable : Retrievable content registry)
    {chunk : NewChunk} (determined : content chunk.id = chunk.data) (version : VersionId) :
    Retrievable content (registry.register overflowChecks chunk version).2 := by
  cases found : registry.chunks.lookup chunk.id with
  | some existing =>
    have counted : Retrievable content
        (registry.setMetadata chunk.id (existing.incRef overflowChecks).2) :=
      retrievable.setMetadata found rfl
    rw [register_existing found]
    simp only
    split
    · exact counted
    · exact counted
  | none =>
    -- every other chunk is still in the store, whether or not storing this one succeeded
    have others {result : Except Error StorageLocation} {storage : store.State}
        (stored : store.store registry.storage chunk.id chunk.data = (result, storage)) :
        Retrievable content { registry with storage } := by
      intro other metadata present
      have different : other ≠ chunk.id := by
        rintro rfl
        rw [found] at present
        contradiction
      exact lawful.retrieve_store_other stored different (retrievable other metadata present)
    simp only [ChunkRegistry.register, found]
    split
    · rename_i failure storage failed
      exact others failed
    · rename_i location storage stored
      intro other metadata present
      rcases Table.eq_or_lookup_of_insert present with ⟨rfl, rfl⟩ | ⟨-, present⟩
      · rw [determined]
        exact lawful.retrieve_store stored
      · exact others stored other metadata present

theorem Retrievable.dereference {found : List ChunkId × ChunkRegistry store}
    (retrievable : Retrievable content found.2) (id : ChunkId) :
    Retrievable content (dereference found id).2 := by
  unfold ChunkRegistry.dereference
  split
  · rename_i metadata present
    exact retrievable.setMetadata present rfl
  · exact retrievable

theorem Retrievable.collected (lawful : store.Lawful) {stats : GcStats}
    {result : GcStats × ChunkRegistry store} (retrievable : Retrievable content registry)
    (collected : Collected stats registry id result) : Retrievable content result.2 := by
  cases collected with
  | absent => exact retrievable
  | kept found failed =>
    intro other metadata present
    change ((registry.chunks.erase id).insert id _).lookup other = some metadata at present
    rw [lookup_reinsert registry found] at present
    have before := retrievable other metadata present
    by_cases same : other = id
    · subst same
      obtain rfl := Option.some.inj (found.symm.trans present)
      exact lawful.retrieve_delete_failed failed before
    · exact lawful.retrieve_delete_other failed same before
  | deleted found succeeded =>
    intro other metadata present
    change (registry.chunks.erase id).lookup other = some metadata at present
    rw [Table.lookup_erase_eq] at present
    split at present
    · contradiction
    · rename_i different
      exact lawful.retrieve_delete_other succeeded different (retrievable other metadata present)

theorem retrievable_invariant (lawful : store.Lawful) :
    CallInvariant overflowChecks (fun _ chunk _ => content chunk.id = chunk.data)
      (fun registry : ChunkRegistry store => Retrievable content registry) where
  register registry chunk version retrievable determined :=
    retrievable.register lawful determined version
  unregisterVersion registry version retrievable := by
    unfold ChunkRegistry.unregisterVersion
    split
    · rename_i chunkIds found
      apply List.foldlRecOn (motive := fun found => Retrievable content found.2) chunkIds.items
        ChunkRegistry.dereference
      · exact retrievable
      · intro found held id member
        exact held.dereference id
    · exact retrievable
  collectGarbage registry retrievable :=
    foldl_collect_preserves registry (fun _ next => Retrievable content next)
      registry.unreferencedChunks
      (fun _ _ _ _ _ collected held => held.collected lawful collected) {} retrievable

end Storage

section Deletion

/-- A chunk is neither in the registry nor in the store. -/
def Gone (registry : ChunkRegistry store) (id : ChunkId) (location : StorageLocation) : Prop :=
  registry.chunks.lookup id = none ∧
    ∀ content, store.retrieve registry.storage id location ≠ .ok content

variable {stats : GcStats} {registry : ChunkRegistry store} {result : GcStats × ChunkRegistry store}
  {metadata : ChunkMetadata}

theorem Collected.errors_le (collected : Collected stats registry id result) :
    stats.errors ≤ result.1.errors := by
  cases collected with
  | absent => exact le_rfl
  | kept => exact le_succ _
  | deleted => exact le_rfl

section
variable (lawful : store.Lawful) {id other : ChunkId}
  (step : Collected stats registry id result)
include lawful step

theorem Gone.collected {location : StorageLocation} (gone : Gone registry other location) :
    Gone result.2 other location := by
  obtain ⟨missing, removed⟩ := gone
  cases step with
  | absent => exact ⟨missing, removed⟩
  | kept found failed =>
    exact ⟨(lookup_reinsert registry found other).trans missing,
      lawful.missing_delete_other failed removed⟩
  | deleted found succeeded =>
    refine ⟨?_, lawful.missing_delete_other succeeded removed⟩
    change (registry.chunks.erase id).lookup other = none
    rw [Table.lookup_erase_eq]
    split
    · rfl
    · exact missing

theorem lookup_collected (found : registry.chunks.lookup other = some metadata) :
    result.2.chunks.lookup other = some metadata ∨ Gone result.2 other metadata.location := by
  cases step with
  | absent => exact .inl found
  | kept present failed => exact .inl ((lookup_reinsert registry present other).trans found)
  | deleted present succeeded =>
    by_cases same : other = id
    · subst same
      obtain rfl := Option.some.inj (found.symm.trans present)
      exact .inr ⟨lookup_erase _ _, lawful.missing_delete succeeded⟩
    · exact .inl ((lookup_erase_ne same).trans found)

theorem Collected.gone (succeeded : result.1.errors = 0)
    (found : registry.chunks.lookup id = some metadata) : Gone result.2 id metadata.location := by
  cases step with
  | absent missing => exact nomatch missing.symm.trans found
  | kept => exact absurd succeeded (succ_ne_zero _)
  | deleted present deleted =>
    obtain rfl := Option.some.inj (found.symm.trans present)
    exact ⟨lookup_erase _ _, lawful.missing_delete deleted⟩

end

theorem gone_collectGarbage (lawful : store.Lawful)
    (found : registry.chunks.lookup id = some metadata) (unreferenced : metadata.refCount = 0)
    (succeeded : registry.collectGarbage.1.errors = 0) :
    Gone registry.collectGarbage.2 id metadata.location := by
  have member := registry.mem_unreferencedChunks_iff.mpr ⟨metadata, found, unreferenced⟩
  obtain ⟨front, back, chunks⟩ := append_of_mem member
  -- the loop reaches the chunk, collects it, and goes on with the rest
  obtain ⟨⟨stats, reached⟩, isReached⟩ :
      ∃ found, found = front.foldl collect (({} : GcStats), registry) := ⟨_, rfl⟩
  have state : reached.chunks.lookup id = some metadata ∨ Gone reached id metadata.location := by
    have kept := foldl_collect_preserves registry
      (fun _ next => next.chunks.lookup id = some metadata ∨ Gone next id metadata.location) front
      (fun _ _ _ _ _ collected held =>
        held.elim (fun present => lookup_collected lawful collected present)
          fun gone => .inr (gone.collected lawful collected)) {} (.inl found)
    rwa [← isReached] at kept
  have collected := collected_collect reached stats id
  obtain ⟨⟨newStats, next⟩, isNext⟩ : ∃ found, found = collect (stats, reached) id := ⟨_, rfl⟩
  rw [← isNext] at collected
  have whole : registry.collectGarbage = back.foldl collect (newStats, next) := by
    rw [collectGarbage, chunks, foldl_append, ← isReached, foldl_cons, ← isNext]
  have errors : newStats.errors ≤ registry.collectGarbage.1.errors := by
    rw [whole]
    exact foldl_collect_preserves next (fun stats _ => newStats.errors ≤ stats.errors) back
      (fun _ _ _ _ _ collected atMost => atMost.trans collected.errors_le) newStats le_rfl
  have none : newStats.errors = 0 := le_zero.mp (succeeded ▸ errors)
  have gone : Gone next id metadata.location :=
    state.elim (collected.gone lawful none) fun gone => gone.collected lawful collected
  rw [whole]
  exact foldl_collect_preserves next (fun _ next => Gone next id metadata.location) back
    (fun _ _ _ _ _ collected gone => gone.collected lawful collected) newStats gone

end Deletion

variable (overflowChecks)

abbrev after (storage : store.State) (calls : List RegistryCall) : ChunkRegistry store :=
  Run.after (perform overflowChecks) (new storage) calls

def chunkOne : NewChunk :=
  let id := digest 0xdc63505634cecce4dbaded95bab772fdd5bb57ff0dbefe3d3c3ecd31ba1dd830
  ⟨id, [99, 104, 117, 110, 107, 32, 49], ChunkWeight.fromHash id⟩

def chunkTwo : NewChunk :=
  let id := digest 0x7eb0d2355ecfe92a94d23fa2197ed983499726365e21496d56974d06cc270144
  ⟨id, [99, 104, 117, 110, 107, 32, 50], ChunkWeight.fromHash id⟩

/-- **Live chunks are retained.** If no chunk is registered while its count is at the maximum,
then every chunk of a registered version is present, and its data can be retrieved. -/
theorem live_chunks_retained (lawful : store.Lawful) (storage : store.State)
    (content : ChunkId → Bytes) (calls : List RegistryCall)
    (determined : ∀ call ∈ calls, ∀ chunk ∈ call.chunks, content chunk.id = chunk.data)
    (guarded : Run.Guarded (perform overflowChecks) (Meets overflowChecks CountFits)
      (new storage) calls)
    (version : VersionId) (id : ChunkId)
    (held : id ∈ (after overflowChecks storage calls).versionChunks.heldBy version) :
    (after overflowChecks storage calls).contains id ∧
      (after overflowChecks storage calls).retrieve id = .ok (content id) := by
  have backed : (after overflowChecks storage calls).ledger.Backed :=
    Run.invariant _ backed_invariant.perform (fun _ => zero_le _) guarded
  have retrievable : Retrievable content (after overflowChecks storage calls) := by
    apply Run.invariant _ (retrievable_invariant lawful).perform
    · intro id metadata present
      exact nomatch present
    · apply Run.guarded_of_forall
      intro call member registry
      exact meets_of_forall overflowChecks
        (fun chunk isRegistered _ _ => determined call member chunk isRegistered) registry
  have counted : 0 < (after overflowChecks storage calls).refCount id := backed.pos held
  cases found : (after overflowChecks storage calls).chunks.lookup id with
  | none =>
    rw [refCount_of_missing found] at counted
    contradiction
  | some metadata =>
    rw [contains, retrieve, found]
    exact ⟨rfl, retrievable id metadata found⟩

/-- A version with a repeated chunk goes, another one with that chunk stays. -/
def sharedCalls : List RegistryCall :=
  [.registerVersion 1 [chunkOne, chunkTwo, chunkOne], .register chunkOne 2, .unregisterVersion 1,
    .collectGarbage]

/-- The chunk is still there for the version that stays. -/
theorem live_chunks_retained_shared :
    chunkOne.id ∈ (after false emptyMemory sharedCalls).versionChunks.heldBy 2 ∧
      (after false emptyMemory sharedCalls).contains chunkOne.id ∧
      (after false emptyMemory sharedCalls).retrieve chunkOne.id = .ok chunkOne.data := by
  have held : chunkOne.id ∈ (after false emptyMemory sharedCalls).versionChunks.heldBy 2 := by
    decide +kernel
  exact ⟨held, live_chunks_retained false lawful_memoryChunkStore emptyMemory
    (fun id => if id = chunkOne.id then chunkOne.data else chunkTwo.data) sharedCalls
    (by decide +kernel) (by decide +kernel) 2 chunkOne.id held⟩

section Wrapping
variable (chunk : NewChunk) (version : VersionId) (count : UInt32)

def singleMetadata (count : UInt32) : ChunkMetadata :=
  { ChunkMetadata.new chunk.id chunk.data.length chunk.weight version .memory with
    refCount := count }

/-- The registry of a single chunk. -/
def single (count : UInt32) : ChunkRegistry memoryChunkStore where
  chunks := (∅ : Table ChunkId ChunkMetadata).insert chunk.id (singleMetadata chunk version count)
  versionChunks := Holdings.hold ∅ version chunk.id
  storage := (∅ : Table ChunkId Bytes).insert chunk.id chunk.data

theorem register_single :
    (single chunk version count).perform false (.register chunk version) =
      single chunk version (count + 1) := by
  have found : (single chunk version count).chunks.lookup chunk.id =
      some (singleMetadata chunk version count) := lookup_insert _
  have held : Holdings.hold (Holdings.hold ∅ version chunk.id) version chunk.id =
      (Holdings.hold ∅ version chunk.id : Holdings VersionId ChunkId) :=
    Holdings.hold_hold ∅ version chunk.id
  rw [perform, register_existing found]
  simp only [Bool.false_eq_true, false_and, if_false, addToVersion, setMetadata, single, held,
    insert_insert]
  rfl

theorem after_replicate_single (times : ℕ) :
    Run.after (perform false) (single chunk version count)
        (List.replicate times (.register chunk version)) =
      single chunk version (count + UInt32.ofNat times) := by
  induction times generalizing count with
  | zero => simp
  | succ times ih =>
    rw [replicate_succ, Run.after_cons, register_single, ih, UInt32.ofNat_add]
    congr 1
    grind

/-- Registered 2³² times, a chunk has the count 0 and is collected though a version holds it. -/
theorem registered_chunk_collected :
    let calls := List.replicate (2 ^ 32) (.register chunkOne 1) ++ [.collectGarbage]
    chunkOne.id ∈ (after false emptyMemory calls).versionChunks.heldBy 1 ∧
      (after false emptyMemory calls).contains chunkOne.id = false := by
  have wrapped : after false emptyMemory (List.replicate (2 ^ 32) (.register chunkOne 1)) =
      single chunkOne 1 0 := by
    have first : (new emptyMemory).perform false (.register chunkOne 1) = single chunkOne 1 1 := rfl
    rw [after, show 2 ^ 32 = (2 ^ 32 - 1) + 1 from rfl, replicate_succ, Run.after_cons, first,
      after_replicate_single]
    rfl
  simp only [after, Run.after_append] at wrapped ⊢
  rw [wrapped]
  decide +kernel

end Wrapping

/-- **Released chunks are collected.** If no version registers a chunk it has, then a chunk
that no version holds has a count of zero, and a collection without errors deletes it. -/
theorem released_chunks_collected (lawful : store.Lawful) (storage : store.State)
    (calls : List RegistryCall)
    (guarded : Run.Guarded (perform overflowChecks) (Meets overflowChecks Unheld)
      (new storage) calls)
    (id : ChunkId) (metadata : ChunkMetadata)
    (present : (after overflowChecks storage calls).chunks.lookup id = some metadata)
    (released : ∀ version, id ∉ (after overflowChecks storage calls).versionChunks.heldBy version) :
    metadata.refCount = 0 ∧ ((after overflowChecks storage calls).collectGarbage.1.errors = 0 →
      Gone (after overflowChecks storage calls).collectGarbage.2 id metadata.location) := by
  have tight : (after overflowChecks storage calls).ledger.Tight :=
    Run.invariant _ tight_invariant.perform (fun _ => zero_le _) guarded
  have count : (after overflowChecks storage calls).refCount id = 0 := tight.eq_zero released
  have unreferenced : metadata.refCount = 0 := by
    rw [refCount_of_lookup present] at count
    exact UInt32.toNat_inj.mp count
  exact ⟨unreferenced, gone_collectGarbage lawful present unreferenced⟩

/-- Two versions that share a chunk go one after the other. -/
def releasingCalls : List RegistryCall :=
  [.registerVersion 1 [chunkOne, chunkTwo], .register chunkOne 2, .unregisterVersion 2,
    .unregisterVersion 1]

/-- The chunk is collected once both its versions are gone. -/
theorem released_chunks_collected_shared :
    (∀ version, chunkOne.id ∉
      (after false emptyMemory releasingCalls).versionChunks.heldBy version) ∧
      (after false emptyMemory releasingCalls).refCount chunkOne.id = 0 ∧
      Gone (after false emptyMemory releasingCalls).collectGarbage.2 chunkOne.id .memory := by
  have released (version : VersionId) : chunkOne.id ∉
      (after false emptyMemory releasingCalls).versionChunks.heldBy version :=
    Collection.notMem_empty chunkOne.id
  have present : (after false emptyMemory releasingCalls).chunks.lookup chunkOne.id =
      some (singleMetadata chunkOne 1 0) := rfl
  obtain ⟨unreferenced, gone⟩ := released_chunks_collected false lawful_memoryChunkStore
    emptyMemory releasingCalls (by decide +kernel) chunkOne.id _ present released
  exact ⟨released, refCount_of_lookup present, gone (by decide +kernel)⟩

/-- A chunk that a version has twice keeps a reference when the version is gone. -/
theorem repeated_chunk_leaked :
    let calls := [.registerVersion 1 [chunkOne, chunkTwo, chunkOne], .unregisterVersion 1]
    (∀ version, chunkOne.id ∉ (after false emptyMemory calls).versionChunks.heldBy version) ∧
      (after false emptyMemory calls).refCount chunkOne.id = 1 ∧
      (after false emptyMemory calls).collectGarbage.2.contains chunkOne.id := by
  refine ⟨fun version => ?_, by decide +kernel⟩
  exact Collection.notMem_empty chunkOne.id

end Warp.Chonkers.ChunkRegistry
