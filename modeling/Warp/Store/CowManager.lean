import Warp.Foundation.Bytes
import Warp.Foundation.Table

/-! # Copy-on-write blocks of snapshots

A cleanup takes the whole list of pending deletes and processes a batch of it, so that what is
behind the batch is forgotten: cleanups without other calls reclaim all unreferenced blocks exactly
if they are in the first batch (`CowManager.reclaims_iff`). Reference counts wrap around. Times and
statistics are left out.
-/

namespace Warp.Store

abbrev BlockId := UInt64

structure BlockRef where
  blockId : BlockId
  offset : ℕ
  length : ℕ
  generation : ℕ

/-- A reference to a block from its start. -/
def BlockRef.fullBlock (blockId : BlockId) (length : ℕ) : BlockRef := ⟨blockId, 0, length, 0⟩

/-- A block with the count of its references, stored outside unless its data is inline. -/
structure CowBlock where
  refCount : UInt64
  checksum : Vector UInt8 32
  inlineData : Option Bytes
  deriving DecidableEq

structure CowConfig where
  dedupEnabled : Bool
  inlineDataThreshold : ℕ
  cleanupBatchSize : ℕ

/-- The blocks, with the next identifiers of blocks that are stored outside and inline. -/
structure CowManager where
  config : CowConfig
  blocks : Table BlockId CowBlock
  checksumIndex : Table (Vector UInt8 32) BlockId
  pendingDeletes : List BlockId
  nextId : BlockId
  nextInlineId : BlockId

namespace CowManager

def new (config : CowConfig) : CowManager := ⟨config, ∅, ∅, [], 1, 1⟩

variable (manager : CowManager)

/-- Store a new block, inline up to the threshold. -/
def createBlock (data : Bytes) (checksum : Vector UInt8 32) : BlockRef × CowManager :=
  let inline := decide (data.length ≤ manager.config.inlineDataThreshold)
  let id := if inline then manager.nextInlineId else manager.nextId
  (.fullBlock id data.length, { manager with
    blocks := manager.blocks.insert id ⟨1, checksum, if inline then some data else none⟩
    checksumIndex := if manager.config.dedupEnabled then manager.checksumIndex.insert checksum id
      else manager.checksumIndex
    nextId := if inline then manager.nextId else manager.nextId + 1
    nextInlineId := if inline then manager.nextInlineId + 1 else manager.nextInlineId })

/-- A block with the same checksum is used again. -/
def dedupHit (checksum : Vector UInt8 32) : Option (BlockId × CowBlock) :=
  if manager.config.dedupEnabled then
    (manager.checksumIndex.lookup checksum).bind fun id =>
      (manager.blocks.lookup id).map fun block => (id, block)
  else none

/-- A reference to a block with this data, which is new unless deduplication finds one. -/
def allocateBlock (data : Bytes) (checksum : Vector UInt8 32) : BlockRef × CowManager :=
  match manager.dedupHit checksum with
  | some (id, block) => (.fullBlock id data.length, { manager with
      blocks := manager.blocks.insert id { block with refCount := block.refCount + 1 } })
  | none => manager.createBlock data checksum

/-- Give up a reference; the block is deleted by a cleanup after its last one. -/
def releaseRef (id : BlockId) : Except String Unit × CowManager :=
  match manager.blocks.lookup id with
  | some block =>
    if block.refCount = 0 then (.error s!"Block {id} already has zero references", manager)
    else (.ok (), { manager with
      blocks := manager.blocks.insert id { block with refCount := block.refCount - 1 }
      pendingDeletes := if block.refCount - 1 = 0 then manager.pendingDeletes ++ [id]
        else manager.pendingDeletes })
  | none => (.error s!"Block {id} not found", manager)

/-- One turn of a cleanup, on the number of blocks that it has deleted. -/
def deleteBlock (progress : ℕ × CowManager) (id : BlockId) : ℕ × CowManager :=
  let (deleted, manager) := progress
  match manager.blocks.lookup id with
  | some block =>
    if block.refCount = 0 then (deleted + 1, { manager with
      checksumIndex := manager.checksumIndex.erase block.checksum
      blocks := manager.blocks.erase id })
    else progress
  | none => progress

/-- Delete a batch of the pending blocks. The others are no longer pending afterwards. -/
def cleanup : ℕ × CowManager :=
  (manager.pendingDeletes.take manager.config.cleanupBatchSize).foldl deleteBlock
    (0, { manager with pendingDeletes := [] })

/-- Cleanups one after the other. -/
def cleanups (calls : ℕ) : CowManager := (fun manager => manager.cleanup.2)^[calls] manager

/-- A block is stored and has no references. -/
def Unreferenced (id : BlockId) : Prop :=
  ∃ block, manager.blocks.lookup id = some block ∧ block.refCount = 0

section
variable (progress : ℕ × CowManager) {query : BlockId} {block : CowBlock}

theorem lookup_deleteBlock (id : BlockId) :
    (deleteBlock progress id).2.blocks.lookup query = some block ↔
      progress.2.blocks.lookup query = some block ∧ (query = id → block.refCount ≠ 0) := by
  unfold deleteBlock
  dsimp only
  split
  · next stored found =>
    split
    · next zero =>
      rw [Table.lookup_erase_eq]
      split
      · next same =>
        subst same
        rw [found]
        refine iff_of_false nofun ?_
        rintro ⟨⟨⟩, referenced⟩
        exact referenced rfl zero
      · next other => simp [other]
    · next referenced =>
      refine ⟨fun kept => ⟨kept, ?_⟩, And.left⟩
      rintro rfl
      rwa [← Option.some.inj (found.symm.trans kept)]
  · next missing =>
    refine ⟨fun kept => ⟨kept, ?_⟩, And.left⟩
    rintro rfl
    cases missing.symm.trans kept

theorem lookup_foldl_deleteBlock (ids : List BlockId) :
    (ids.foldl deleteBlock progress).2.blocks.lookup query = some block ↔
      progress.2.blocks.lookup query = some block ∧ (query ∈ ids → block.refCount ≠ 0) := by
  induction ids generalizing progress with
  | nil => exact (and_iff_left nofun).symm
  | cons id rest ih =>
    rw [List.foldl_cons, ih, lookup_deleteBlock, List.mem_cons, or_imp, and_assoc]

end

theorem pendingDeletes_foldl_deleteBlock (ids : List BlockId) (progress : ℕ × CowManager) :
    (ids.foldl deleteBlock progress).2.pendingDeletes = progress.2.pendingDeletes := by
  induction ids generalizing progress with
  | nil => rfl
  | cons id rest ih =>
    rw [List.foldl_cons, ih]
    unfold deleteBlock
    dsimp only
    split
    · split
      · rfl
      · rfl
    · rfl

theorem cleanups_succ (calls : ℕ) : manager.cleanups (calls + 1) = manager.cleanup.2 := by
  have idle : manager.cleanup.2.cleanup.2 = manager.cleanup.2 := by
    have emptied : manager.cleanup.2.pendingDeletes = [] := pendingDeletes_foldl_deleteBlock _ _
    rw [cleanup, emptied, List.take_nil, List.foldl_nil, ← emptied]
  exact Function.iterate_fixed idle calls

/-- **Unreferenced blocks are reclaimed** by repeated cleanups exactly if all of them are in the
first batch of pending deletes. -/
theorem reclaims_iff :
    (∃ calls, ∀ id, manager.Unreferenced id → (manager.cleanups calls).blocks.lookup id = none) ↔
      ∀ id, manager.Unreferenced id →
        id ∈ manager.pendingDeletes.take manager.config.cleanupBatchSize := by
  constructor
  · rintro ⟨calls, reclaims⟩ id ⟨block, found, zero⟩
    have removed := reclaims id ⟨block, found, zero⟩
    cases calls with
    | zero => cases found.symm.trans removed
    | succ calls =>
      by_contra behind
      rw [cleanups_succ] at removed
      have kept := (lookup_foldl_deleteBlock (0, { manager with pendingDeletes := [] }) _).mpr
        ⟨found, fun pending => absurd pending behind⟩
      cases kept.symm.trans removed
  · intro first
    refine ⟨1, fun id unreferenced => Option.eq_none_iff_forall_ne_some.mpr fun block kept => ?_⟩
    obtain ⟨stored, found, zero⟩ := unreferenced
    rw [cleanups_succ] at kept
    obtain ⟨same, referenced⟩ := (lookup_foldl_deleteBlock _ _).mp kept
    obtain rfl := Option.some.inj (found.symm.trans same)
    exact referenced (first id ⟨stored, found, zero⟩) zero

/-- Two blocks are written and released, and a cleanup processes one at a time. -/
def sampleReleased : CowManager :=
  let first := ((new ⟨true, 4096, 1⟩).allocateBlock [1] (.replicate 32 1)).2
  let second := (first.allocateBlock [2] (.replicate 32 2)).2
  ((second.releaseRef 1).2.releaseRef 2).2

/-- However often the cleanup is called, the second block stays. -/
theorem second_block_not_reclaimed :
    sampleReleased.Unreferenced 2 ∧
      ∀ calls, (sampleReleased.cleanups calls).blocks.lookup 2 ≠ none := by
  refine ⟨⟨⟨0, .replicate 32 2, some [2]⟩, by decide, rfl⟩, fun calls => ?_⟩
  cases calls with
  | zero => decide
  | succ calls =>
    rw [cleanups_succ]
    decide

end CowManager

end Warp.Store
