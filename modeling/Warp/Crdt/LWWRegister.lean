import Warp.Crdt.Hlc
import Warp.Foundation.Run

/-! # Last-write-wins registers

A local write takes a new tick of the node's clock; a remote write is taken only if its timestamp is
larger than the register's. A register that is written and merged through one clock never goes back,
unless it is given a timestamp past the clock that is ahead of it (`register_advances`).
-/

namespace Warp.Crdt

open List HLC

structure MergeStats where
  elementsAdded : ℕ := 0
  elementsRemoved : ℕ := 0
  elementsUpdated : ℕ := 0
  conflictsResolved : ℕ := 0
  deriving DecidableEq

structure LWWRegister (T : Type*) where
  value : T
  timestamp : HLC

namespace LWWRegister

variable {T : Type*}

def fromParts (value : T) (timestamp : HLC) : LWWRegister T := ⟨value, timestamp⟩

def get (register : LWWRegister T) : T := register.value

/-- Set a new value at the next tick of the clock, which reads physical time
`now`. The result is the register and the ticked clock. -/
def set (_register : LWWRegister T) (value : T) (clock : HLC) (now : ℕ) : LWWRegister T × HLC :=
  let ticked := clock.tick now
  (⟨value, ticked⟩, ticked)

/-- Set a new value with an explicit timestamp, only if it is greater; also
whether the register was updated. -/
def setWithTimestamp (register : LWWRegister T) (value : T) (timestamp : HLC) :
    LWWRegister T × Bool :=
  if timestamp > register.timestamp then (⟨value, timestamp⟩, true) else (register, false)

/-- Merge with another register: the clock, which reads physical time `now`,
receives its timestamp, and the value with the higher timestamp wins. -/
def merge (register other : LWWRegister T) (clock : HLC) (now : ℕ) : LWWRegister T × HLC :=
  (if other.timestamp > register.timestamp then other else register,
    clock.receive other.timestamp now)

/-- The merge of the `CrdtMerge` trait, which has no clock. -/
def mergeFrom (register other : LWWRegister T) : LWWRegister T × MergeStats :=
  let changed := if other.timestamp > register.timestamp then 1 else 0
  (if other.timestamp > register.timestamp then other else register,
    { elementsAdded := changed, conflictsResolved := changed })

end LWWRegister

/-- A register with the clock of its node, and the timestamps of the registers merged in. -/
structure RegisterNode (T : Type*) where
  register : LWWRegister T
  clock : HLC
  merged : List HLC := []

inductive RegisterAction (T : Type*) where
  | set (value : T) (now : ℕ)
  | setWithTimestamp (value : T) (timestamp : HLC)
  | merge (other : LWWRegister T) (now : ℕ)
  | mergeFrom (other : LWWRegister T)

namespace RegisterNode

variable {T : Type*}

def step (node : RegisterNode T) : RegisterAction T → RegisterNode T
  | .set value now =>
    let (register, clock) := node.register.set value node.clock now
    { node with register, clock }
  | .setWithTimestamp value timestamp =>
    { node with register := (node.register.setWithTimestamp value timestamp).1 }
  | .merge other now =>
    let (register, clock) := node.register.merge other node.clock now
    ⟨register, clock, other.timestamp :: node.merged⟩
  | .mergeFrom other =>
    ⟨(node.register.mergeFrom other).1, node.clock, other.timestamp :: node.merged⟩

/-- The timestamp does not go back, and a local write lies past everything merged in. -/
def Advances (node : RegisterNode T) (action : RegisterAction T) : Prop :=
  node.register.timestamp ≤ (node.step action).register.timestamp ∧
    ∀ value now, action = .set value now →
      ∀ stamp ∈ node.merged, stamp < (node.step action).register.timestamp

/-- The counter of the clock has room for the action, and a timestamp that the clock does not
receive is not ahead of it. -/
def Covered (node : RegisterNode T) : RegisterAction T → Prop
  | .set _ _ => node.clock.logical + 1 < u32Max
  | .setWithTimestamp _ timestamp => timestamp.time ≤ node.clock.time
  | .merge other _ => max node.clock.logical other.timestamp.logical + 1 < u32Max
  | .mergeFrom other => other.timestamp.time ≤ node.clock.time

/-- The clock is not behind what the register knows of. -/
def Tracked (node : RegisterNode T) : Prop :=
  ∀ stamp ∈ node.register.timestamp :: node.merged, stamp.time ≤ node.clock.time

theorem tick_later {clock : HLC} (room : clock.logical + 1 < u32Max) (now : ℕ) :
    clock.time < (clock.tick now).time := by
  apply time_lt_tick
  unfold tick saturatingSucc
  split <;> dsimp only <;> omega

theorem receive_later {clock remote : HLC}
    (room : max clock.logical remote.logical + 1 < u32Max) (now : ℕ) :
    clock.time < (clock.receive remote now).time ∧
      remote.time < (clock.receive remote now).time := by
  apply time_lt_receive
  unfold receive saturatingSucc
  split_ifs <;> dsimp only <;> omega

theorem timestamp_taken (current other : LWWRegister T) :
    (if other.timestamp > current.timestamp then other else current).timestamp =
      max current.timestamp other.timestamp := by
  split
  · next later => exact (max_eq_right later.le).symm
  · next notLater => exact (max_eq_left (not_lt.mp notLater)).symm

theorem timestamp_setWithTimestamp (register : LWWRegister T) (value : T) (timestamp : HLC) :
    (register.setWithTimestamp value timestamp).1.timestamp = max register.timestamp timestamp := by
  rw [← timestamp_taken register ⟨value, timestamp⟩]
  unfold LWWRegister.setWithTimestamp
  split <;> rfl

variable {node : RegisterNode T} {action : RegisterAction T}

theorem advances_of_covered (tracked : node.Tracked) (covered : node.Covered action) :
    node.Advances action := by
  cases action with
  | set value now =>
    have later : ∀ stamp ∈ node.register.timestamp :: node.merged, stamp < node.clock.tick now :=
      fun stamp known =>
        lt_of_time_lt ((tracked stamp known).trans_lt (tick_later covered now))
    refine ⟨(later _ mem_cons_self).le, fun _ _ _ stamp known => ?_⟩
    exact later stamp (mem_cons_of_mem _ known)
  | setWithTimestamp value timestamp =>
    exact ⟨(timestamp_setWithTimestamp ..).symm ▸ le_max_left _ _, nofun⟩
  | merge | mergeFrom => exact ⟨(timestamp_taken ..).symm ▸ le_max_left _ _, nofun⟩

theorem Tracked.step (tracked : node.Tracked) (covered : node.Covered action) :
    (node.step action).Tracked := by
  obtain ⟨own, old⟩ := forall_mem_cons.mp tracked
  refine forall_mem_cons.mpr ?_
  cases action with
  | set value now =>
    exact ⟨le_rfl, fun stamp known => (old stamp known).trans (tick_later covered now).le⟩
  | setWithTimestamp value timestamp =>
    refine ⟨?_, old⟩
    have taken := max_rec' (time · ≤ node.clock.time) own covered
    rwa [← timestamp_setWithTimestamp] at taken
  | merge other now =>
    have later := receive_later covered now
    refine ⟨?_, forall_mem_cons.mpr ⟨later.2.le, fun stamp known =>
      (old stamp known).trans later.1.le⟩⟩
    have taken := max_rec' (time · ≤ (node.clock.receive other.timestamp now).time)
      (own.trans later.1.le) later.2.le
    rwa [← timestamp_taken] at taken
  | mergeFrom other =>
    refine ⟨?_, forall_mem_cons.mpr ⟨covered, old⟩⟩
    have taken := max_rec' (time · ≤ node.clock.time) own covered
    rwa [← timestamp_taken] at taken

end RegisterNode

/-- **Timestamps go forward**, and every local write lies past every register merged in, in a
run of a register that starts behind its clock, if the counter of the clock has room and the
timestamps that the clock does not receive are not ahead of it. -/
theorem register_advances {T : Type*} (register : LWWRegister T) (clock : HLC)
    (behind : register.timestamp.time ≤ clock.time) (actions : List (RegisterAction T))
    (covered : Run.Guarded RegisterNode.step RegisterNode.Covered ⟨register, clock, []⟩ actions) :
    Run.Guarded RegisterNode.step RegisterNode.Advances ⟨register, clock, []⟩ actions := by
  refine Run.guarded_imp RegisterNode.Tracked (fun _ _ => RegisterNode.advances_of_covered)
    (fun _ _ => RegisterNode.Tracked.step) ?_ covered
  intro stamp own
  rwa [mem_singleton.mp own]

/-- A merge through the clock, then a local write: it lies past the merged register. -/
theorem register_advances_merged :
    Run.Guarded RegisterNode.step RegisterNode.Advances ⟨⟨0, ⟨0, 0, 1⟩⟩, ⟨0, 0, 1⟩, []⟩
      [.merge ⟨1, ⟨10, 0, 2⟩⟩ 5, .set 2 5] :=
  register_advances ⟨0, ⟨0, 0, 1⟩⟩ ⟨0, 0, 1⟩ le_rfl _
    ⟨(by decide : max 0 0 + 1 < u32Max), (by decide : 1 + 1 < u32Max), trivial⟩

/-- After a merge without the clock, a local write takes the timestamp back. -/
theorem register_goes_back :
    ¬ Run.Guarded RegisterNode.step RegisterNode.Advances ⟨⟨0, ⟨0, 0, 1⟩⟩, ⟨0, 0, 1⟩, []⟩
      [.mergeFrom ⟨1, ⟨10, 0, 2⟩⟩, .set 2 5] := by
  rintro ⟨-, ⟨forward, -⟩, -⟩
  revert forward
  decide

end Warp.Crdt
