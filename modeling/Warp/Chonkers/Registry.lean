import Warp.Chonkers.Tree
import Warp.Foundation.Ledger
import Warp.Foundation.Run

/-! # The chunk registry

The registry keeps a reference count for every chunk and the set of chunks of every version. A
registration counts the chunk once more; unregistering a version counts every chunk of its set down
once; collecting garbage deletes the chunks whose count is zero. Sets and counts form a ledger
(`ChunkRegistry.ledger`), in which a registration is a claim unless the 32-bit count is at its
maximum (`ChunkRegistry.Registered`).
-/

namespace Warp.Chonkers

open Table AList Function Prod List

inductive StorageLocation where
  | memory
  | file (path : String) (offset : ℕ)
  | external (backend key : String)

structure ChunkMetadata where
  id : ChunkId
  size : ℕ
  weight : ChunkWeight
  refCount : UInt32
  firstSeen : VersionId
  location : StorageLocation

namespace ChunkMetadata

def new (id : ChunkId) (size : ℕ) (weight : ChunkWeight) (firstSeen : VersionId)
    (location : StorageLocation) : ChunkMetadata :=
  ⟨id, size, weight, 1, firstSeen, location⟩

variable (metadata : ChunkMetadata)

/-- Increment reference count. The stored count wraps; the returned one is computed from the
previous count and may overflow. -/
def incRef (overflowChecks : Bool) : Outcome Error ℕ × ChunkMetadata :=
  (Machine.fit overflowChecks 32 (metadata.refCount.toNat + 1),
    { metadata with refCount := metadata.refCount + 1 })

/-- Decrement reference count, returns new count. A count of zero stays zero. -/
def decRef : UInt32 × ChunkMetadata :=
  let newCount := if metadata.refCount = 0 then 0 else metadata.refCount - 1
  (newCount, { metadata with refCount := newCount })

def isReferenced : Bool := 0 < metadata.refCount

theorem toNat_incRef (overflowChecks : Bool) :
    (metadata.incRef overflowChecks).2.refCount.toNat = (metadata.refCount.toNat + 1) % 2 ^ 32 :=
  UInt32.toNat_add metadata.refCount 1

theorem toNat_decRef : metadata.decRef.2.refCount.toNat = metadata.refCount.toNat - 1 := by
  change (if metadata.refCount = 0 then 0 else metadata.refCount - 1).toNat = _
  split
  · rename_i zero
    rw [zero]
    rfl
  · rename_i positive
    apply UInt32.toNat_sub_of_le
    apply UInt32.le_iff_toNat_le.mpr
    exact Nat.one_le_iff_ne_zero.mpr fun zero => positive (UInt32.toNat_inj.mp zero)

end ChunkMetadata

open ChunkMetadata

structure ChunkStore where
  State : Type
  store : State → ChunkId → Bytes → Except Error StorageLocation × State
  retrieve : State → ChunkId → StorageLocation → Except Error Bytes
  delete : State → ChunkId → StorageLocation → Except Error Unit × State

/-- What the registry relies on: what was stored can be retrieved, a successful deletion
removes it, and an operation on one chunk, or a failed deletion, loses no data. -/
structure ChunkStore.Lawful (store : ChunkStore) : Prop where
  retrieve_store : ∀ {state next id data location},
    store.store state id data = (.ok location, next) → store.retrieve next id location = .ok data
  retrieve_store_other : ∀ {state next id data result other location content},
    store.store state id data = (result, next) → other ≠ id →
      store.retrieve state other location = .ok content →
        store.retrieve next other location = .ok content
  retrieve_delete_other : ∀ {state next id gone result other location content},
    store.delete state id gone = (result, next) → other ≠ id →
      store.retrieve state other location = .ok content →
        store.retrieve next other location = .ok content
  retrieve_delete_failed : ∀ {state next id location content failure},
    store.delete state id location = (.error failure, next) →
      store.retrieve state id location = .ok content → store.retrieve next id location = .ok content
  missing_delete : ∀ {state next id location}, store.delete state id location = (.ok (), next) →
    ∀ content, store.retrieve next id location ≠ .ok content
  missing_delete_other : ∀ {state next id gone result other location},
    store.delete state id gone = (result, next) →
      (∀ content, store.retrieve state other location ≠ .ok content) →
        ∀ content, store.retrieve next other location ≠ .ok content

def shortHex (id : ChunkId) : String :=
  String.ofList ((id.toList.take 8).flatMap fun byte =>
    [Nat.digitChar (byte.toNat / 16), Nat.digitChar (byte.toNat % 16)])

def chunkNotFound (id : ChunkId) : Error :=
  .internal ("Chunk not found: ChunkId(" ++ shortHex id ++ ")")

def memoryChunkStore : ChunkStore where
  State := Table ChunkId Bytes
  store chunks id data := (.ok .memory, chunks.insert id data)
  retrieve chunks id _ := (chunks.lookup id).elim (.error (chunkNotFound id)) .ok
  delete chunks id _ := (.ok (), chunks.erase id)

def emptyMemory : memoryChunkStore.State := (∅ : Table ChunkId Bytes)

variable {id : ChunkId}

theorem retrieve_memoryChunkStore_iff {chunks : Table ChunkId Bytes} {location : StorageLocation}
    {data : Bytes} :
    memoryChunkStore.retrieve chunks id location = .ok data ↔ chunks.lookup id = some data := by
  change (chunks.lookup id).elim (.error (chunkNotFound id)) .ok = Except.ok data ↔ _
  cases chunks.lookup id <;> simp

theorem lawful_memoryChunkStore : memoryChunkStore.Lawful where
  retrieve_store stored := by
    obtain ⟨-, rfl⟩ := mk.inj stored
    exact retrieve_memoryChunkStore_iff.mpr (lookup_insert _)
  retrieve_store_other stored different found := by
    obtain ⟨-, rfl⟩ := mk.inj stored
    apply retrieve_memoryChunkStore_iff.mpr
    exact (lookup_insert_ne different).trans (retrieve_memoryChunkStore_iff.mp found)
  retrieve_delete_other deleted different found := by
    obtain ⟨-, rfl⟩ := mk.inj deleted
    apply retrieve_memoryChunkStore_iff.mpr
    exact (lookup_erase_ne different).trans (retrieve_memoryChunkStore_iff.mp found)
  retrieve_delete_failed failed := nomatch (mk.inj failed).1
  missing_delete deleted content found := by
    obtain ⟨-, rfl⟩ := mk.inj deleted
    have stored := retrieve_memoryChunkStore_iff.mp found
    exact nomatch stored.symm.trans (lookup_erase _ _)
  missing_delete_other deleted missing content found := by
    obtain ⟨-, rfl⟩ := mk.inj deleted
    have stored := retrieve_memoryChunkStore_iff.mp found
    have kept := (lookup_erase_eq _ _ _).symm.trans stored
    split at kept
    · contradiction
    · exact missing content (retrieve_memoryChunkStore_iff.mpr kept)

structure NewChunk where
  id : ChunkId
  data : Bytes
  weight : ChunkWeight

structure RegistrationStats where
  newChunks : ℕ := 0
  newBytes : ℕ := 0
  dedupChunks : ℕ := 0
  dedupBytes : ℕ := 0

structure GcStats where
  chunksDeleted : ℕ := 0
  bytesFreed : ℕ := 0
  errors : ℕ := 0

def RegistrationStats.count (stats : RegistrationStats) (isNew : Bool) (size : ℕ) :
    RegistrationStats :=
  if isNew then
    { stats with newChunks := stats.newChunks + 1, newBytes := stats.newBytes + size }
  else { stats with dedupChunks := stats.dedupChunks + 1, dedupBytes := stats.dedupBytes + size }

structure ChunkRegistry (store : ChunkStore) where
  chunks : Table ChunkId ChunkMetadata
  versionChunks : Holdings VersionId ChunkId
  storage : store.State

namespace ChunkRegistry

variable {store : ChunkStore} (overflowChecks : Bool)

def new (storage : store.State) : ChunkRegistry store := ⟨∅, ∅, storage⟩

variable (registry : ChunkRegistry store)

def addToVersion (version : VersionId) (id : ChunkId) : ChunkRegistry store :=
  { registry with versionChunks := registry.versionChunks.hold version id }

def setMetadata (id : ChunkId) (metadata : ChunkMetadata) : ChunkRegistry store :=
  { registry with chunks := registry.chunks.insert id metadata }

def register (chunk : NewChunk) (version : VersionId) : Outcome Error Bool × ChunkRegistry store :=
  match registry.chunks.lookup chunk.id with
  | some existing =>
    let counted := registry.setMetadata chunk.id (existing.incRef overflowChecks).2
    match (existing.incRef overflowChecks).1 with
    | .ok _ => (.ok false, counted.addToVersion version chunk.id)
    | .error failure => (.error failure, counted)
    | .panic => (.panic, counted)
  | none =>
    match store.store registry.storage chunk.id chunk.data with
    | (.error failure, storage) => (.error failure, { registry with storage })
    | (.ok location, storage) =>
      let metadata :=
        ChunkMetadata.new chunk.id chunk.data.length chunk.weight version location
      (.ok true, (({ registry with storage } : ChunkRegistry store).setMetadata chunk.id
        metadata).addToVersion version chunk.id)

/-- The loop of `registerVersion`: the first failed registration ends it. -/
def registerChunks (version : VersionId) :
    List NewChunk → RegistrationStats → ChunkRegistry store →
      Outcome Error RegistrationStats × ChunkRegistry store
  | [], stats, registry => (.ok stats, registry)
  | chunk :: rest, stats, registry =>
    match registry.register overflowChecks chunk version with
    | (.ok isNew, next) =>
      registerChunks version rest (stats.count isNew chunk.data.length) next
    | (.error failure, next) => (.error failure, next)
    | (.panic, next) => (.panic, next)

def registerVersion (version : VersionId) (chunks : List NewChunk) :
    Outcome Error RegistrationStats × ChunkRegistry store :=
  registerChunks overflowChecks version chunks {} registry

/-- Count a chunk down, and note it if nothing refers to it any more. -/
def dereference (found : List ChunkId × ChunkRegistry store) (id : ChunkId) :
    List ChunkId × ChunkRegistry store :=
  match found.2.chunks.lookup id with
  | some metadata =>
    let (newCount, counted) := metadata.decRef
    (if newCount = 0 then found.1 ++ [id] else found.1, found.2.setMetadata id counted)
  | none => found

def unregisterVersion (version : VersionId) : List ChunkId × ChunkRegistry store :=
  match registry.versionChunks.lookup version with
  | some chunkIds =>
    chunkIds.items.foldl dereference
      ([], { registry with versionChunks := registry.versionChunks.erase version })
  | none => ([], registry)

def retrieve (id : ChunkId) : Except Error Bytes :=
  match registry.chunks.lookup id with
  | some metadata => store.retrieve registry.storage id metadata.location
  | none => .error (chunkNotFound id)

def contains (id : ChunkId) : Bool := (registry.chunks.lookup id).isSome

/-- Get unreferenced chunks (`refCount` is zero). -/
def unreferencedChunks : List ChunkId :=
  (registry.chunks.entries.filter fun entry => !entry.2.isReferenced).map Sigma.fst

/-- Delete one chunk. The metadata goes first and comes back if the deletion fails. -/
def collect (collected : GcStats × ChunkRegistry store) (id : ChunkId) :
    GcStats × ChunkRegistry store :=
  let (stats, registry) := collected
  match registry.chunks.lookup id with
  | some metadata =>
    match store.delete registry.storage id metadata.location with
    | (.error _, storage) =>
      ({ stats with errors := stats.errors + 1 },
        { registry with storage, chunks := (registry.chunks.erase id).insert id metadata })
    | (.ok _, storage) =>
      ({ stats with
          chunksDeleted := stats.chunksDeleted + 1
          bytesFreed := stats.bytesFreed + metadata.size },
        { registry with storage, chunks := registry.chunks.erase id })
  | none => collected

def collectGarbage : GcStats × ChunkRegistry store :=
  registry.unreferencedChunks.foldl collect ({}, registry)

end ChunkRegistry

namespace ChunkRegistry

variable {store : ChunkStore} {overflowChecks : Bool} (registry : ChunkRegistry store)
  {metadata : ChunkMetadata}

section Counting

/-- The reference count of a chunk, zero if the chunk is not there. -/
def refCount (id : ChunkId) : ℕ :=
  (registry.chunks.lookup id).elim 0 fun metadata => metadata.refCount.toNat

/-- Version sets and reference counts. -/
def ledger : Ledger VersionId ChunkId := ⟨registry.versionChunks, registry.refCount⟩

inductive Registered (before : Ledger VersionId ChunkId) (id : ChunkId) (version : VersionId) :
    Ledger VersionId ChunkId → Prop where
  | claimed (fits : before.counts id + 1 < 2 ^ 32) : Registered before id version
      (before.claim version id)
  | refused : Registered before id version before
  | wrapped (full : before.counts id + 1 = 2 ^ 32) : Registered before id version
      ((before.recount id 0).hold version id)
  | panicked (full : before.counts id + 1 = 2 ^ 32) : Registered before id version
      (before.recount id 0)

variable {registry} in
theorem refCount_of_lookup (found : registry.chunks.lookup id = some metadata) :
    registry.refCount id = metadata.refCount.toNat := by
  rw [refCount, found]
  rfl

variable {registry} in
theorem refCount_of_missing (missing : registry.chunks.lookup id = none) :
    registry.refCount id = 0 := by
  rw [refCount, missing]
  rfl

theorem ledger_setMetadata (id : ChunkId) (metadata : ChunkMetadata) :
    (registry.setMetadata id metadata).ledger =
      registry.ledger.recount id metadata.refCount.toNat := by
  apply Ledger.ext
  · rfl
  · funext other
    change ((registry.chunks.insert id metadata).lookup other).elim 0 _ =
      update registry.refCount id metadata.refCount.toNat other
    rw [lookup_insert_eq, update_apply]
    split
    · rfl
    · rfl

variable (version : VersionId)

theorem ledger_addToVersion (id : ChunkId) :
    (registry.addToVersion version id).ledger = registry.ledger.hold version id := rfl

variable {registry} in
/-- A chunk that is there is counted once more and added to the version, unless computing
the new count panics. -/
theorem register_existing {chunk : NewChunk} {existing : ChunkMetadata}
    (found : registry.chunks.lookup chunk.id = some existing) (version : VersionId) :
    (registry.register overflowChecks chunk version).2 =
      let counted := registry.setMetadata chunk.id (existing.incRef overflowChecks).2
      if overflowChecks ∧ existing.refCount.toNat + 1 = 2 ^ 32 then counted
      else counted.addToVersion version chunk.id := by
  have bound : existing.refCount.toNat < 2 ^ 32 := existing.refCount.toNat_lt
  simp only [register, found]
  rw [incRef, Machine.fit]
  rcases Nat.lt_or_ge (existing.refCount.toNat + 1) (2 ^ 32) with fits | full
  · rw [if_pos fits, if_neg (fun h => fits.ne h.2)]
  · rw [if_neg (Nat.not_lt.mpr full)]
    have full : existing.refCount.toNat + 1 = 2 ^ 32 := le_antisymm bound full
    cases overflowChecks with
    | true => rw [if_pos rfl, if_pos ⟨rfl, full⟩]
    | false => rw [if_neg Bool.false_ne_true, if_neg (fun h => Bool.false_ne_true h.1)]

variable (overflowChecks) in
theorem registered_register (chunk : NewChunk) (version : VersionId) :
    Registered registry.ledger chunk.id version
      (registry.register overflowChecks chunk version).2.ledger := by
  cases found : registry.chunks.lookup chunk.id with
  | some existing =>
    have count : registry.ledger.counts chunk.id = existing.refCount.toNat :=
      refCount_of_lookup found
    have bound : existing.refCount.toNat + 1 ≤ 2 ^ 32 := existing.refCount.toNat_lt
    have counted := ledger_setMetadata registry chunk.id (existing.incRef overflowChecks).2
    rw [toNat_incRef] at counted
    rw [register_existing found]
    rcases bound.lt_or_eq with fits | full
    · rw [if_neg (fun h => fits.ne h.2), ledger_addToVersion, counted, Nat.mod_eq_of_lt fits,
        ← count]
      exact .claimed (count ▸ fits)
    · rw [full, Nat.mod_self] at counted
      split
      · rw [counted]
        exact .panicked (count ▸ full)
      · rw [ledger_addToVersion, counted]
        exact .wrapped (count ▸ full)
  | none =>
    have count : registry.ledger.counts chunk.id = 0 := refCount_of_missing found
    simp only [register, found]
    split
    · exact .refused
    · rw [ledger_addToVersion, ledger_setMetadata]
      change Registered _ _ _ ((registry.ledger.recount chunk.id (0 + 1)).hold _ _)
      rw [← count]
      exact .claimed (by rw [count]; decide)

theorem ledger_dereference (found : List ChunkId × ChunkRegistry store) (id : ChunkId) :
    (dereference found id).2.ledger = found.2.ledger.recount id (found.2.refCount id - 1) := by
  unfold dereference
  split
  · rename_i metadata present
    rw [refCount_of_lookup present]
    change (found.2.setMetadata id metadata.decRef.2).ledger = _
    rw [ledger_setMetadata, toNat_decRef]
  · rename_i missing
    rw [refCount_of_missing missing, Ledger.recount]
    apply Ledger.ext
    · rfl
    · change _ = update found.2.refCount id (0 - 1)
      rw [Nat.zero_sub, ← refCount_of_missing missing, update_eq_self]
      rfl

theorem ledger_foldl_dereference (ids : List ChunkId) (distinct : ids.Nodup)
    (found : List ChunkId × ChunkRegistry store) :
    (ids.foldl dereference found).2.ledger =
      { found.2.ledger with counts := fun id =>
          if id ∈ ids then found.2.refCount id - 1 else found.2.refCount id } := by
  induction ids generalizing found with
  | nil => simp [ledger]
  | cons first rest ih =>
    obtain ⟨fresh, distinct⟩ := nodup_cons.mp distinct
    have step := ledger_dereference found first
    have counts (id : ChunkId) : (dereference found first).2.refCount id =
        if id = first then found.2.refCount first - 1 else found.2.refCount id := by
      rw [← update_apply]
      exact congrFun (congrArg Ledger.counts step) id
    rw [foldl_cons, ih distinct]
    apply Ledger.ext
    · change (dereference found first).2.ledger.holdings = found.2.ledger.holdings
      rw [step]
      rfl
    · funext id
      simp only [counts, mem_cons]
      grind

theorem ledger_unregisterVersion :
    (registry.unregisterVersion version).2.ledger = registry.ledger.release version := by
  unfold unregisterVersion
  split
  · rename_i chunkIds found
    rw [ledger_foldl_dereference _ chunkIds.nodup]
    have held : registry.versionChunks.heldBy version = chunkIds := by
      rw [Holdings.heldBy, found]
      rfl
    simp only [Ledger.release, ledger, held, Collection.mem_items]
    rfl
  · rename_i missing
    have held : registry.versionChunks.heldBy version = ∅ := by
      rw [Holdings.heldBy, missing]
      rfl
    simp only [Ledger.release, ledger, held, Collection.notMem_empty, if_false,
      erase_eq_self missing]

end Counting

inductive Collected (stats : GcStats) (registry : ChunkRegistry store) (id : ChunkId) :
    GcStats × ChunkRegistry store → Prop where
  | absent (missing : registry.chunks.lookup id = none) :
      Collected stats registry id (stats, registry)
  | kept {metadata : ChunkMetadata} {failure : Error} {storage : store.State}
      (found : registry.chunks.lookup id = some metadata)
      (failed : store.delete registry.storage id metadata.location = (.error failure, storage)) :
      Collected stats registry id ({ stats with errors := stats.errors + 1 },
        { registry with storage, chunks := (registry.chunks.erase id).insert id metadata })
  | deleted {metadata : ChunkMetadata} {storage : store.State}
      (found : registry.chunks.lookup id = some metadata)
      (succeeded : store.delete registry.storage id metadata.location = (.ok (), storage)) :
      Collected stats registry id
        ({ stats with
            chunksDeleted := stats.chunksDeleted + 1
            bytesFreed := stats.bytesFreed + metadata.size },
          { registry with storage, chunks := registry.chunks.erase id })

theorem collected_collect (stats : GcStats) (id : ChunkId) :
    Collected stats registry id (collect (stats, registry) id) := by
  cases found : registry.chunks.lookup id with
  | none =>
    simp only [collect, found]
    exact .absent found
  | some metadata =>
    simp only [collect, found]
    split
    · rename_i failed
      exact .kept found failed
    · rename_i succeeded
      exact .deleted found succeeded

theorem lookup_reinsert (found : registry.chunks.lookup id = some metadata) (other : ChunkId) :
    ((registry.chunks.erase id).insert id metadata).lookup other =
      registry.chunks.lookup other := by
  rw [lookup_insert_eq, lookup_erase_eq]
  grind

theorem mem_unreferencedChunks_iff :
    id ∈ registry.unreferencedChunks ↔
      ∃ metadata, registry.chunks.lookup id = some metadata ∧ metadata.refCount = 0 := by
  simp only [unreferencedChunks, mem_map, mem_filter, Sigma.exists, exists_and_right,
    exists_eq_right, ← mem_lookup_iff, Option.mem_def, isReferenced]
  grind

theorem Collected.ledger_eq {stats : GcStats} {registry : ChunkRegistry store}
    {result : GcStats × ChunkRegistry store} (collected : Collected stats registry id result)
    (unreferenced : registry.refCount id = 0) : result.2.ledger = registry.ledger := by
  cases collected with
  | absent missing => rfl
  | kept found failed =>
    apply Ledger.ext
    · rfl
    · funext other
      simp only [ledger, refCount, lookup_reinsert registry found]
  | deleted found succeeded =>
    apply Ledger.ext
    · rfl
    · funext other
      simp only [ledger, refCount, lookup_erase_eq]
      split
      · rename_i same
        rw [same, ← refCount, unreferenced]
        rfl
      · rfl

/-- What every collected chunk of a list preserves, the loop over the list does. -/
theorem foldl_collect_preserves (holds : GcStats → ChunkRegistry store → Prop)
    (ids : List ChunkId) (collecting : ∀ stats registry id result,
      id ∈ ids → Collected stats registry id result → holds stats registry →
        holds result.1 result.2)
    (stats : GcStats) (initially : holds stats registry) :
    holds (ids.foldl collect (stats, registry)).1 (ids.foldl collect (stats, registry)).2 := by
  apply foldlRecOn (motive := fun found => holds found.1 found.2) ids collect
    (b := (stats, registry)) initially
  intro found held id member
  exact collecting found.1 found.2 id _ member (collected_collect found.2 found.1 id) held

theorem ledger_collectGarbage : registry.collectGarbage.2.ledger = registry.ledger := by
  refine foldl_collect_preserves registry (fun _ next => next.ledger = registry.ledger)
    registry.unreferencedChunks ?_ {} rfl
  intro stats next id result member collected same
  obtain ⟨metadata, found, zero⟩ := registry.mem_unreferencedChunks_iff.mp member
  rw [← same]
  apply collected.ledger_eq
  have count : next.refCount id = registry.refCount id := congrFun (congrArg Ledger.counts same) id
  rw [count, refCount_of_lookup found, zero]
  rfl

end ChunkRegistry

inductive RegistryCall where
  | register (chunk : NewChunk) (version : VersionId)
  | registerVersion (version : VersionId) (chunks : List NewChunk)
  | unregisterVersion (version : VersionId)
  | collectGarbage

def RegistryCall.chunks : RegistryCall → List NewChunk
  | .register chunk _ => [chunk]
  | .registerVersion _ chunks => chunks
  | .unregisterVersion _ | .collectGarbage => []

namespace ChunkRegistry

variable {store : ChunkStore} (overflowChecks : Bool)

def perform (registry : ChunkRegistry store) : RegistryCall → ChunkRegistry store
  | .register chunk version => (registry.register overflowChecks chunk version).2
  | .registerVersion version chunks => (registry.registerVersion overflowChecks version chunks).2
  | .unregisterVersion version => (registry.unregisterVersion version).2
  | .collectGarbage => registry.collectGarbage.2

end ChunkRegistry

end Warp.Chonkers
