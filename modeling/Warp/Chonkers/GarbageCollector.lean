import Warp.Chonkers.Retention

/-! # The garbage collector

The collector picks pending chunks by their age, up to a batch, but what it then runs is the
collection of the whole registry. It keeps to its configuration if nothing is picked or every
unreferenced chunk is due, and otherwise only if deletions fail (`GarbageCollector.respected_iff`).
-/

namespace Warp.Chonkers

structure GcConfig where
  minAge : ℕ
  batchSize : ℕ
  dryRun : Bool

/-- `GarbageCollector`, with the instants at which the pending chunks were marked. -/
structure GarbageCollector where
  config : GcConfig
  pending : List (ChunkId × ℕ)

namespace GarbageCollector

open List ChunkRegistry Option

variable {store : ChunkStore} (gc : GarbageCollector) (registry : ChunkRegistry store) (now : ℕ)

def eligible : List ChunkId :=
  ((gc.pending.filter fun entry => now - entry.2 ≥ gc.config.minAge).take
    gc.config.batchSize).map Prod.fst

/-- Run garbage collection. -/
def collect : GcStats × GarbageCollector × ChunkRegistry store :=
  if (gc.eligible now).isEmpty then ({}, gc, registry)
  else if gc.config.dryRun then
    let toDelete := (gc.eligible now).filterMap fun id =>
      (registry.chunks.lookup id).filter (!·.isReferenced)
    ({ chunksDeleted := toDelete.length, bytesFreed := (toDelete.map (·.size)).sum }, gc, registry)
  else
    let (stats, registry) := registry.collectGarbage
    (stats, { gc with pending := gc.pending.filter (registry.contains ·.1) }, registry)

/-- The chunks that a run takes from the registry. -/
def deleted : List ChunkId :=
  registry.chunks.keys.filter fun id => !(gc.collect registry now).2.2.contains id

/-- The chunk was marked and has been pending for the minimum age. -/
def Aged (id : ChunkId) : Prop :=
  ∃ entry ∈ gc.pending, entry.1 = id ∧ gc.config.minAge ≤ now - entry.2
  deriving Decidable

/-- A run deletes only unreferenced chunks that have been pending long enough, and at most a batch
of them. -/
def Respected : Prop :=
  (∀ id ∈ gc.deleted registry now, gc.Aged now id ∧ registry.refCount id = 0) ∧
    (gc.deleted registry now).length ≤ gc.config.batchSize
  deriving Decidable

/-- Nothing is picked or to be deleted, or the unreferenced chunks are at most a batch and have all
been pending long enough. -/
def Due : Prop :=
  (gc.config.dryRun ∨ gc.config.batchSize = 0 ∨ ∀ id, ¬ gc.Aged now id) ∨
    (∀ id ∈ registry.unreferencedChunks, gc.Aged now id) ∧
      registry.unreferencedChunks.length ≤ gc.config.batchSize

variable {gc registry now}

theorem eligible_eq_nil_iff :
    gc.eligible now = [] ↔ gc.config.batchSize = 0 ∨ ∀ id, ¬ gc.Aged now id := by
  simp [eligible, Aged, filter_eq_nil_iff]

theorem mem_deleted_iff {id : ChunkId} : id ∈ gc.deleted registry now ↔
    registry.contains id ∧ (gc.collect registry now).2.2.contains id = false := by
  rw [deleted, mem_filter, ← AList.mem_keys, ← AList.lookup_isSome, Bool.not_eq_true']
  rfl

theorem deleted_subset : gc.deleted registry now ⊆ registry.unreferencedChunks := by
  intro id member
  obtain ⟨present, gone⟩ := mem_deleted_iff.mp member
  by_contra referenced
  have kept : (gc.collect registry now).2.2.contains id = registry.contains id := by
    unfold collect
    split
    · rfl
    split
    · rfl
    refine registry.foldl_collect_preserves (fun _ next => next.contains id = registry.contains id)
      _ ?_ {} rfl
    intro stats next other result among collected same
    cases collected with
    | absent => exact same
    | kept found => exact (congrArg isSome (lookup_reinsert next found id)).trans same
    | deleted =>
      have different := (ne_of_mem_of_not_mem among referenced).symm
      exact (congrArg isSome (AList.lookup_erase_ne different)).trans same
  exact Bool.false_ne_true (gone.symm.trans (kept.trans present))

theorem deleted_eq_nil (idle : gc.config.dryRun ∨ gc.eligible now = []) :
    gc.deleted registry now = [] := by
  have same : (gc.collect registry now).2.2 = registry := by
    unfold collect
    split
    · rfl
    · next picks =>
      rw [if_pos (idle.resolve_right fun none_ => picks (List.isEmpty_iff.mpr none_))]
  refine eq_nil_iff_forall_not_mem.mpr fun id member => ?_
  obtain ⟨present, gone⟩ := mem_deleted_iff.mp member
  rw [same] at gone
  exact Bool.false_ne_true (gone.symm.trans present)

/-- A run keeps to the configuration if the unreferenced chunks are due, and only then where every
deletion succeeds. -/
theorem respected_iff : (gc.Due registry now → gc.Respected registry now) ∧
    (store.Lawful → registry.collectGarbage.1.errors = 0 → gc.Respected registry now →
      gc.Due registry now) := by
  rw [Due, ← eligible_eq_nil_iff]
  constructor
  · rintro (idle | ⟨aged, few⟩)
    · simp [Respected, deleted_eq_nil idle]
    · refine ⟨fun id member => ⟨aged id (deleted_subset member), ?_⟩, ?_⟩
      · obtain ⟨metadata, found, zero⟩ :=
          registry.mem_unreferencedChunks_iff.mp (deleted_subset member)
        rw [refCount_of_lookup found, zero]
        rfl
      · have distinct : (gc.deleted registry now).Nodup := registry.chunks.nodupKeys.filter _
        exact (distinct.subperm deleted_subset).length_le.trans few
  · intro lawful succeeded respected
    refine or_iff_not_imp_left.mpr fun busy => ?_
    obtain ⟨real, picks⟩ := not_or.mp busy
    have all : registry.unreferencedChunks ⊆ gc.deleted registry now := by
      intro id member
      obtain ⟨metadata, found, zero⟩ := registry.mem_unreferencedChunks_iff.mp member
      have gone := (gone_collectGarbage lawful found zero succeeded).1
      rw [mem_deleted_iff, collect, if_neg (mt List.isEmpty_iff.mp picks), if_neg real]
      exact ⟨congrArg isSome found, congrArg isSome gone⟩
    have distinct : registry.unreferencedChunks.Nodup :=
      (filter_sublist.map Sigma.fst).nodup registry.chunks.nodupKeys
    exact ⟨fun id member => (respected.1 id (all member)).1,
      (distinct.subperm all).length_le.trans respected.2⟩

/-- Of two unreferenced chunks one is pending. The run deletes both. -/
theorem unmarked_chunk_deleted :
    ¬ Respected ⟨⟨300, 1000, false⟩, [(chunkOne.id, 0)]⟩
      (after false emptyMemory releasingCalls) 300 := by
  decide +kernel

end GarbageCollector

end Warp.Chonkers
