import Mathlib.Data.UInt
import Warp.Foundation.Run

/-! # The NVMe-oF I/O queue

Command identifiers (CIDs) come from a wrapping counter that never looks at the pending commands,
and a completion lowers the outstanding count even if its identifier is unknown. So identifiers are
unique and the counts agree exactly as long as completions are for commands in flight and none of
these stays in flight until the counter has gone round (`identifiers_unique_iff`).
-/

namespace Warp.Block

/-- `IoQueue`, without the bodies of the commands and responses. -/
structure IoQueue where
  depth : UInt16
  pending : Finset UInt16 := ∅
  nextCid : UInt16 := 0
  completions : List UInt16 := []
  outstandingIo : UInt32 := 0

inductive QueueAction where
  | submit
  | complete (cid : UInt16)
  | pollCompletion

namespace IoQueue

def currentDepth (queue : IoQueue) : UInt16 :=
  UInt16.ofNat queue.pending.card

def isFull (queue : IoQueue) : Bool :=
  queue.currentDepth ≥ queue.depth

/-- The identifier and the counter after it: the loop passes over the reserved value once. -/
def allocateCid (queue : IoQueue) : UInt16 × UInt16 :=
  if queue.nextCid ≠ 0xFFFF then (queue.nextCid, queue.nextCid + 1)
  else (queue.nextCid + 1, queue.nextCid + 2)

theorem allocateCid_fst (queue : IoQueue) :
    queue.allocateCid.1.toNat = queue.nextCid.toNat % 0xFFFF := by
  have small := queue.nextCid.toNat_lt
  simp only [allocateCid, ne_eq, ← UInt16.toNat_inj]
  split
  · simp_all; omega
  · simp_all

theorem allocateCid_snd (queue : IoQueue) :
    queue.allocateCid.2.toNat = queue.nextCid.toNat % 0xFFFF + 1 := by
  have small := queue.nextCid.toNat_lt
  simp only [allocateCid, ne_eq, ← UInt16.toNat_inj]
  split
  · simp_all; omega
  · simp_all

/-- A full queue refuses the command. Otherwise it replaces whatever has the identifier. -/
def submit (queue : IoQueue) : Except String UInt16 × IoQueue :=
  if queue.isFull then (.error "I/O queue full", queue)
  else
    (.ok queue.allocateCid.1,
      { queue with
        nextCid := queue.allocateCid.2
        pending := insert queue.allocateCid.1 queue.pending
        outstandingIo := queue.outstandingIo + 1 })

def complete (queue : IoQueue) (cid : UInt16) : IoQueue :=
  { queue with
    pending := queue.pending.erase cid
    outstandingIo := queue.outstandingIo - 1
    completions := queue.completions ++ [cid] }

def pollCompletion (queue : IoQueue) : Option UInt16 × IoQueue :=
  (queue.completions.head?, { queue with completions := queue.completions.tail })

def step (queue : IoQueue) : QueueAction → IoQueue
  | .submit => queue.submit.2
  | .complete cid => queue.complete cid
  | .pollCompletion => queue.pollCompletion.2

/-- No more commands than the depth are pending, and they are counted. -/
def Accounted (queue : IoQueue) : Prop :=
  queue.pending.card ≤ queue.depth.toNat ∧ queue.outstandingIo.toNat = queue.pending.card

/-- A submission does not return the identifier of a pending command. -/
def Fresh (queue : IoQueue) : QueueAction → Prop
  | .submit => ∀ cid, queue.submit.1 = .ok cid → cid ∉ queue.pending
  | _ => True

/-- A completion is for a pending command, and a submission is refused or finds the next identifier
free. -/
def Regular (queue : IoQueue) : QueueAction → Prop
  | .submit => queue.isFull ∨ queue.allocateCid.1 ∉ queue.pending
  | .complete cid => cid ∈ queue.pending
  | .pollCompletion => True

variable {queue : IoQueue}

section
variable (accounted : queue.Accounted)
include accounted

theorem isFull_iff :
    queue.isFull ↔ queue.depth.toNat ≤ queue.pending.card := by
  have fits := accounted.1.trans_lt queue.depth.toNat_lt
  simp only [isFull, currentDepth, ge_iff_le, decide_eq_true_eq, UInt16.le_iff_toNat_le]
  rw [UInt16.toNat_ofNat_of_lt' fits]

theorem accounted_submit_iff :
    queue.submit.2.Accounted ↔ queue.Regular .submit := by
  simp only [submit, Regular]
  split
  · next full => simp [accounted, full]
  · next room =>
    have below := mt (isFull_iff accounted).mpr room
    have next : (queue.outstandingIo + 1).toNat = queue.pending.card + 1 := by
      have small := queue.depth.toNat_lt
      rw [UInt32.toNat_add, accounted.2, UInt32.toNat_one]
      omega
    simp only [Accounted, room, next, Bool.false_eq_true, false_or]
    by_cases taken : queue.allocateCid.1 ∈ queue.pending
    · simp [taken]
    · simp only [taken, Finset.card_insert_of_notMem, not_false_eq_true, and_true, iff_true]
      omega

theorem accounted_complete_iff (cid : UInt16) :
    (queue.complete cid).Accounted ↔ queue.Regular (.complete cid) := by
  have small := accounted.1.trans_lt queue.depth.toNat_lt
  simp only [complete, Accounted, Regular, UInt32.toNat_sub, accounted.2, UInt32.toNat_one]
  by_cases known : cid ∈ queue.pending
  · have some_ := Finset.card_pos.mpr ⟨cid, known⟩
    rw [Finset.card_erase_of_mem known, iff_true_right known]
    exact ⟨(Nat.sub_le _ 1).trans accounted.1, by omega⟩
  · rw [Finset.erase_eq_of_notMem known, iff_false_right known]
    omega

end

/-- A queue beside the numbers of the commands that it accepted and has not completed, counted
from the first accepted one. -/
structure CommandLedger where
  queue : IoQueue
  accepted : ℕ := 0
  inFlight : Finset ℕ := ∅

namespace CommandLedger

/-- The identifiers go round without the reserved value. -/
def cycle : ℕ := 0xFFFF

/-- A completion ends the commands with its identifier. -/
def step (ledger : CommandLedger) : QueueAction → CommandLedger
  | .submit =>
    if ledger.queue.isFull then { ledger with queue := ledger.queue.submit.2 }
    else ⟨ledger.queue.submit.2, ledger.accepted + 1, insert ledger.accepted ledger.inFlight⟩
  | .complete cid => { ledger with
      queue := ledger.queue.complete cid
      inFlight := ledger.inFlight.filter fun command => command % cycle ≠ cid.toNat }
  | .pollCompletion => { ledger with queue := ledger.queue.pollCompletion.2 }

/-- A completion is for a command in flight, and no command is accepted while the one accepted
a whole cycle of accepted commands before it is in flight. -/
def Timely (ledger : CommandLedger) : QueueAction → Prop
  | .submit => ledger.queue.isFull ∨
      ∀ command ∈ ledger.inFlight, command + cycle ≠ ledger.accepted
  | .complete cid => ∃ command ∈ ledger.inFlight, command % cycle = cid.toNat
  | .pollCompletion => True

/-- The counter follows the number of accepted commands, the pending identifiers are those of the
commands in flight, and these were accepted within the last cycle. -/
structure Tracks (ledger : CommandLedger) : Prop where
  next : ledger.queue.allocateCid.1.toNat = ledger.accepted % cycle
  pending : ∀ cid, cid ∈ ledger.queue.pending ↔
    ∃ command ∈ ledger.inFlight, command % cycle = cid.toNat
  recent : ∀ command ∈ ledger.inFlight,
    command < ledger.accepted ∧ ledger.accepted ≤ command + cycle

variable {ledger : CommandLedger}

/-- Within a cycle a command has the next identifier only if it was accepted a cycle ago. -/
theorem Tracks.next_pending_iff (tracks : ledger.Tracks) :
    ledger.queue.allocateCid.1 ∈ ledger.queue.pending ↔
      ∃ command ∈ ledger.inFlight, command + cycle = ledger.accepted := by
  rw [tracks.pending, tracks.next]
  refine exists_congr fun command => and_congr_right fun member => ?_
  have recent := tracks.recent command member
  simp only [cycle] at recent ⊢
  omega

/-- The condition on the commands is the one on the identifiers. -/
theorem Tracks.timely_iff (tracks : ledger.Tracks) (action : QueueAction) :
    ledger.Timely action ↔ ledger.queue.Regular action := by
  cases action with
  | submit =>
    rw [Timely, Regular, tracks.next_pending_iff]
    simp
  | complete cid => exact (tracks.pending cid).symm
  | pollCompletion => exact Iff.rfl

theorem Tracks.submit (tracks : ledger.Tracks) (timely : ledger.Timely .submit) :
    (ledger.step .submit).Tracks := by
  simp only [step, IoQueue.submit]
  split
  · exact tracks
  · next room =>
    have apart := timely.resolve_left room
    have next := tracks.next
    refine ⟨?_, fun cid => ?_, ?_⟩
    · rw [allocateCid_fst, cycle] at next ⊢
      dsimp only
      rw [allocateCid_snd]
      omega
    · rw [Finset.mem_insert, tracks.pending, Finset.exists_mem_insert, ← next, UInt16.toNat_inj,
        eq_comm]
    · intro command member
      dsimp only
      rcases Finset.mem_insert.mp member with rfl | earlier
      · exact ⟨Nat.lt_succ_self _, by rw [cycle]; omega⟩
      · have recent := tracks.recent command earlier
        have other := apart command earlier
        omega

theorem Tracks.complete (tracks : ledger.Tracks) (cid : UInt16) :
    (ledger.step (.complete cid)).Tracks := by
  refine ⟨tracks.next, fun other => ?_, fun command member =>
    tracks.recent command (Finset.mem_of_mem_filter command member)⟩
  simp only [step, IoQueue.complete, Finset.mem_erase, tracks.pending, Finset.mem_filter]
  constructor
  · rintro ⟨different, command, member, same⟩
    refine ⟨command, ⟨member, ?_⟩, same⟩
    rw [same]
    exact fun equal => different (UInt16.toNat_inj.mp equal)
  · rintro ⟨command, ⟨member, different⟩, same⟩
    refine ⟨?_, command, member, same⟩
    rintro rfl
    exact different same

/-- Timely steps keep the queue and the commands in flight in step. -/
theorem Tracks.step (tracks : ledger.Tracks) {action : QueueAction}
    (timely : ledger.Timely action) : (ledger.step action).Tracks := by
  cases action with
  | submit => exact tracks.submit timely
  | complete cid => exact tracks.complete cid
  | pollCompletion => exact ⟨tracks.next, tracks.pending, tracks.recent⟩

/-- The ledger only watches the queue. -/
theorem queue_step (ledger : CommandLedger) (action : QueueAction) :
    (ledger.step action).queue = ledger.queue.step action := by
  cases action with
  | submit =>
    simp only [step, IoQueue.step]
    split <;> rfl
  | complete | pollCompletion => rfl

/-- A run is timely exactly if no accepted command finds its identifier pending. -/
theorem guarded_timely_iff (tracks : ledger.Tracks) (actions : List QueueAction) :
    Run.Guarded step Timely ledger actions ↔
      Run.Guarded IoQueue.step Regular ledger.queue actions := by
  induction actions generalizing ledger with
  | nil => exact Iff.rfl
  | cons action rest ih =>
    simp only [Run.Guarded, ← queue_step]
    rw [tracks.timely_iff]
    refine and_congr_right fun regular => ih (tracks.step ((tracks.timely_iff action).mpr regular))

end CommandLedger

/-- A run keeps the counts right exactly if it is regular, and then hands out fresh identifiers. -/
theorem accounted_iff_regular (depth : UInt16) (actions : List QueueAction) :
    (Run.Throughout step Accounted { depth } actions ∧ Run.Guarded step Fresh { depth } actions) ↔
      Run.Guarded step Regular { depth } actions := by
  have exactly : ∀ queue action, Accounted queue →
      ((queue.step action).Accounted ↔ queue.Regular action) := by
    intro queue action accounted
    cases action with
    | submit => exact accounted_submit_iff accounted
    | complete cid => exact accounted_complete_iff accounted cid
    | pollCompletion => exact iff_of_true accounted trivial
  have initially : Accounted { depth } := ⟨Nat.zero_le _, rfl⟩
  rw [Run.throughout_iff_guarded Accounted (fun _ => True) (fun _ _ _ => trivial)
    (fun queue action _ => exactly queue action) initially trivial, and_iff_left_iff_imp]
  refine Run.guarded_imp Accounted ?_ (fun queue action held => (exactly queue action held).mpr)
    initially
  intro queue action _ regular
  cases action with
  | submit =>
    intro cid accepted
    simp only [submit] at accepted
    split at accepted
    · cases accepted
    · next room => cases accepted; exact regular.resolve_left room
  | complete | pollCompletion => trivial

/-- **Identifiers are unique and the counts right** exactly in timely runs: no pending identifier is
handed out, no more commands than the depth are pending and the counter gives their number, if and
only if every completion is for a command in flight and no command is accepted while the one
accepted 65535 accepted commands before it is in flight. -/
theorem identifiers_unique_iff (depth : UInt16) (actions : List QueueAction) :
    (Run.Throughout step Accounted { depth } actions ∧ Run.Guarded step Fresh { depth } actions) ↔
      Run.Guarded CommandLedger.step CommandLedger.Timely { queue := { depth } } actions := by
  have initially : CommandLedger.Tracks { queue := { depth } } :=
    ⟨rfl, fun cid => by simp, fun command member => absurd member (Finset.notMem_empty command)⟩
  rw [accounted_iff_regular, CommandLedger.guarded_timely_iff initially]

/-- A completion for an unknown identifier on an empty queue: the count wraps. -/
theorem unknown_completion_wraps :
    ¬ Run.Throughout step Accounted { depth := 2 } [.complete 5] := by
  simp [Run.Throughout, step, complete, Accounted]

end IoQueue

end Warp.Block
