import Warp.Block.Error
import Warp.Block.ExtentMap
import Warp.Foundation.Machine
import Warp.Foundation.Table

/-! # Snapshots of thin volumes

A snapshot copies the extent map of its source volume and marks the copies as shared. A write asks
for copy-on-write where it overlaps a shared extent of the volume's own map, which the snapshot does
not touch. So snapshots are protected as long as each is taken of extents that were shared already
(`snapshots_protected`).
-/

namespace Warp.Block

open BlockExtent List

abbrev VolumeId := UInt64

def VolumeId.display (id : VolumeId) : String := "vol-" ++ paddedHex 8 id.toNat

structure ThinVolume where
  id : VolumeId
  virtualSize : ℕ
  readOnly : Bool
  extents : ExtentMap

structure WriteResult where
  offset : ℕ
  length : ℕ
  needsCow : Bool
deriving DecidableEq

def ThinVolume.write (overflowChecks : Bool) (volume : ThinVolume) (offset length : ℕ) :
    Outcome BlockError WriteResult :=
  if volume.readOnly then .error .readOnly
  else do
    let stop ← Machine.fit overflowChecks 64 (offset + length)
    if stop > volume.virtualSize then .error (.invalidOffset offset volume.virtualSize)
    else
      let extents := volume.extents.lookupRange offset stop
      .ok { offset, length, needsCow := extents.any (·.isShared) }

structure BlockSnapshot where
  id : VolumeId
  name : String
  sourceId : VolumeId
  createdAt : ℕ
  extents : ExtentMap
  size : ℕ

def BlockSnapshot.fromVolume (id : VolumeId) (now : ℕ) (name : String) (source : ThinVolume) :
    BlockSnapshot where
  id
  name
  sourceId := source.id
  createdAt := now
  extents := source.extents.cloneForSnapshot
  size := source.virtualSize

structure SnapshotManager where
  snapshots : Table VolumeId BlockSnapshot
  bySource : Table VolumeId (List VolumeId)

namespace SnapshotManager

def createSnapshot (manager : SnapshotManager) (id : VolumeId) (now : ℕ) (name : String)
    (source : ThinVolume) : VolumeId × SnapshotManager :=
  let snapshot := BlockSnapshot.fromVolume id now name source
  let tracked := (manager.bySource.lookup source.id).getD []
  (id,
    { bySource := manager.bySource.insert source.id (tracked ++ [id])
      snapshots := manager.snapshots.insert id snapshot })

def deleteSnapshot (manager : SnapshotManager) (id : VolumeId) :
    Except BlockError Unit × SnapshotManager :=
  match manager.snapshots.lookup id with
  | none => (.error (.snapshotNotFound id.display), manager)
  | some snapshot =>
    let bySource :=
      match manager.bySource.lookup snapshot.sourceId with
      | none => manager.bySource
      | some tracked => manager.bySource.insert snapshot.sourceId (tracked.filter (· ≠ id))
    (.ok (), { snapshots := manager.snapshots.erase id, bySource })

end SnapshotManager

namespace BlockSnapshot

variable (id : VolumeId) (now : ℕ) (name : String) (source : ThinVolume)

theorem isShared_of_mem_fromVolume {extent : BlockExtent}
    (member : extent ∈ (fromVolume id now name source).extents.iter) :
    extent.isShared = true := by
  obtain ⟨original, -, rfl⟩ := mem_map.mp member
  exact original.flags.isShared_setShared

theorem resolve_fromVolume (offset : ℕ) :
    (fromVolume id now name source).extents.resolve offset = source.extents.resolve offset :=
  source.extents.resolve_cloneForSnapshot offset

end BlockSnapshot

inductive VolumeCall where
  | insert (extent : BlockExtent)
  | removeRange (start stop : ℕ)
  | write (offset length : ℕ)
  | createSnapshot (id : VolumeId) (now : ℕ) (name : String)
  | deleteSnapshot (id : VolumeId)

/-- A volume with its snapshots, and what is left of the non-hole extents that some snapshot
was taken of. -/
structure VolumeHistory where
  volume : ThinVolume
  manager : SnapshotManager
  captured : List BlockExtent

namespace VolumeHistory

def start (volume : ThinVolume) (manager : SnapshotManager) : VolumeHistory :=
  ⟨volume, manager, []⟩

/-- What calls leave of the captured extents follows the calls: an insertion replaces the
extents it overlaps, and a removal leaves remainders of those it overlaps. -/
def step (history : VolumeHistory) : VolumeCall → VolumeHistory
  | .insert extent =>
    { history with
      volume := { history.volume with extents := history.volume.extents.insert extent }
      captured := history.captured.filter
        fun earlier => !earlier.overlaps extent.offset extent.endOffset }
  | .removeRange start stop =>
    { history with
      volume := { history.volume with extents := history.volume.extents.removeRange start stop }
      captured := history.captured.flatMap fun earlier =>
        if earlier.overlaps start stop then earlier.remainders start stop else [earlier] }
  | .write _ _ => history
  | .createSnapshot id now name =>
    { history with
      manager := (history.manager.createSnapshot id now name history.volume).2
      captured := history.captured ++ history.volume.extents.iter.filter fun extent =>
        !extent.isHole }
  | .deleteSnapshot id =>
    { history with manager := (history.manager.deleteSnapshot id).2 }

/-- A volume that is written to has all its non-hole extents shared when a snapshot is taken,
those past its size apart. -/
def sharedAtSnapshot (history : VolumeHistory) : VolumeCall → Bool
  | .createSnapshot _ _ _ =>
    history.volume.readOnly || history.volume.extents.iter.all fun extent =>
      extent.isHole || history.volume.virtualSize ≤ extent.offset || extent.isShared
  | _ => true

/-- Captured extents that a write can reach are shared. -/
def Protected (history : VolumeHistory) : Prop :=
  history.volume.readOnly = false → ∀ extent ∈ history.captured,
    extent.offset < history.volume.virtualSize → extent.isShared = true

theorem protected_step (history : VolumeHistory) (call : VolumeCall)
    (isProtected : history.Protected) (shared : history.sharedAtSnapshot call = true) :
    (history.step call).Protected := by
  intro writable extent member reachable
  cases call with
  | insert inserted =>
    exact isProtected writable extent (mem_filter.mp member).1 reachable
  | removeRange start stop =>
    obtain ⟨whole, captured, part⟩ := mem_flatMap.mp member
    by_cases overlapping : whole.overlaps start stop = true
    · rw [if_pos overlapping] at part
      have reached : whole.offset < history.volume.virtualSize := by
        have ends := endpoints_of_mem_remainders part
        rw [overlaps_iff] at overlapping
        change extent.offset < history.volume.virtualSize at reachable
        omega
      have flags := flags_of_mem_remainders part
      rw [BlockExtent.isShared, flags]
      exact isProtected writable whole captured reached
    · rw [if_neg overlapping, mem_singleton] at part
      exact isProtected writable extent (part ▸ captured) reachable
  | write offset length => exact isProtected writable extent member reachable
  | createSnapshot id now name =>
    rcases mem_append.mp member with earlier | fresh
    · exact isProtected writable extent earlier reachable
    · obtain ⟨present, filled⟩ := mem_filter.mp fresh
      change history.volume.readOnly = false at writable
      change extent.offset < history.volume.virtualSize at reachable
      simp only [sharedAtSnapshot, writable, Bool.false_or, all_eq_true] at shared
      rw [Bool.not_eq_true'] at filled
      simpa [filled, reachable.not_ge] using shared extent present
  | deleteSnapshot id => exact isProtected writable extent member reachable

theorem protected_after (volume : ThinVolume) (manager : SnapshotManager)
    {calls : List VolumeCall}
    (shared : Run.Guarded step (fun history call => history.sharedAtSnapshot call = true)
      (start volume manager) calls) :
    (Run.after step (start volume manager) calls).Protected := by
  refine Run.invariant Protected protected_step ?_ shared
  intro _ extent member
  exact absurd member not_mem_nil

end VolumeHistory

open VolumeHistory

theorem ThinVolume.write_eq_ok {overflowChecks : Bool} {volume : ThinVolume} {offset length : ℕ}
    {result : WriteResult} (fits : offset + length < 2 ^ 64)
    (written : volume.write overflowChecks offset length = .ok result) :
    volume.readOnly = false ∧ offset + length ≤ volume.virtualSize ∧
      result.needsCow = (volume.extents.lookupRange offset (offset + length)).any (·.isShared) := by
  cases writable : volume.readOnly with
  | true => simp [write, writable] at written
  | false =>
    simp only [write, writable, Machine.fit_of_lt fits, Outcome.bind_eq, Outcome.ok_bind,
      Bool.false_eq_true, if_false] at written
    split at written
    · cases written
    · cases written
      exact ⟨rfl, by omega, rfl⟩

/-- If every snapshot is taken of extents that are shared already, a write over a captured
extent that is still in the map asks for copy-on-write. -/
theorem snapshots_protected (overflowChecks : Bool) (volume : ThinVolume)
    (manager : SnapshotManager) (calls : List VolumeCall)
    (shared : Run.Guarded VolumeHistory.step
      (fun history call => history.sharedAtSnapshot call = true)
      (.start volume manager) calls) :
    let history := Run.after step (.start volume manager) calls
    ∀ offset length result, offset + length < 2 ^ 64 →
      history.volume.write overflowChecks offset length = .ok result →
      ∀ extent ∈ history.captured, extent ∈ history.volume.extents.iter →
        extent.overlaps offset (offset + length) = true → result.needsCow = true := by
  intro history offset length result fits written extent captured present overlapping
  obtain ⟨writable, bounded, cow⟩ := ThinVolume.write_eq_ok fits written
  have reachable : extent.offset < history.volume.virtualSize :=
    lt_of_lt_of_le (overlaps_iff.mp overlapping).1 bounded
  have isShared :=
    protected_after volume manager shared writable extent captured reachable
  rw [cow, any_eq_true]
  exact ⟨extent, ExtentMap.mem_lookupRange.mpr ⟨present, overlapping⟩, isShared⟩

def emptyVolume : ThinVolume := ⟨1, 1048576, false, .new 1048576⟩

/-- An extent that was shared at the snapshot stays protected when a part is removed. -/
theorem snapshots_protected_remainder :
    let manager : SnapshotManager := ⟨∅, ∅⟩
    let calls : List VolumeCall :=
      [.insert (BlockExtent.new 0 4096 "obj1" 0).share, .createSnapshot 2 0 "snap-1",
        .removeRange 1024 2048]
    let history := Run.after step (.start emptyVolume manager) calls
    Run.Guarded step (fun history call => history.sharedAtSnapshot call = true)
        (.start emptyVolume manager) calls ∧
      history.volume.write true 2048 512 = .ok ⟨2048, 512, true⟩ ∧
      ∀ result, history.volume.write true 2048 512 = .ok result → result.needsCow = true := by
  intro manager calls history
  have shared : Run.Guarded step
      (fun history call => history.sharedAtSnapshot call = true)
      (.start emptyVolume manager) calls := by decide +kernel
  refine ⟨shared, by decide +kernel, fun result written => ?_⟩
  exact snapshots_protected true emptyVolume manager calls shared 2048 512 result (by decide)
    written (BlockExtent.new 2048 2048 "obj1" 2048).share (by decide +kernel)
    (by decide +kernel) (by decide)

/-- The snapshot marks its own copies only, so the volume is written in place. -/
theorem written_in_place_after_snapshot :
    let extent := BlockExtent.new 0 4096 "obj1" 0
    let history := Run.after step (.start emptyVolume ⟨∅, ∅⟩)
      [.insert extent, .createSnapshot 2 0 "snap-1"]
    extent ∈ history.captured ∧ extent ∈ history.volume.extents.iter ∧
      extent.overlaps 0 512 = true ∧
      history.volume.write false 0 512 = .ok ⟨0, 512, false⟩ := by
  intro extent history
  decide +kernel

end Warp.Block
