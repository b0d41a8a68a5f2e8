import Warp.Foundation.Run
import Warp.Gateway.Lock

/-! # Delegations of files to clients

Granting looks at active delegations only, and a recalled one is replaced by the delegation of any
client. A file's delegation changes hands only after it was given back exactly if no client asks for
a file while its recall from another client is pending (`Custody.handover_iff`). A cleanup of one
client goes by a list of files, which may name those of another (`Custody.revokeAll_confined_iff`).
-/

namespace Warp.Gateway

open Option Table

inductive DelegationType where
  | read
  | write
  | batch
  | handle
deriving DecidableEq

def DelegationType.isExclusive : DelegationType → Bool
  | .write | .batch => true
  | .read | .handle => false

inductive DelegationState where
  | active
  | recallPending
  | returning
  | revoked
deriving DecidableEq

structure StateId where
  seqid : UInt32
  other : Vector UInt8 12
deriving DecidableEq

structure Delegation where
  stateid : StateId
  fileId : FileId
  clientId : ClientId
  delegType : DelegationType
  state : DelegationState
  grantedAt : ℕ
  recallAt : Option ℕ
  isRecallPending : Bool
deriving DecidableEq

namespace Delegation

def new (stateid : StateId) (file : FileId) (client : ClientId) (delegType : DelegationType)
    (now : ℕ) : Delegation where
  stateid := stateid
  fileId := file
  clientId := client
  delegType := delegType
  state := .active
  grantedAt := now
  recallAt := none
  isRecallPending := false

def requestRecall (delegation : Delegation) (now : ℕ) : Delegation :=
  if delegation.state = .active then
    { delegation with state := .recallPending, recallAt := some now, isRecallPending := true }
  else delegation

def revoke (delegation : Delegation) : Delegation := { delegation with state := .revoked }

def recallExpired (delegation : Delegation) (timeout now : ℕ) : Bool :=
  delegation.state = .recallPending &&
    delegation.recallAt.any fun recallAt => now - recallAt > timeout

theorem clientId_requestRecall (delegation : Delegation) (now : ℕ) :
    (delegation.requestRecall now).clientId = delegation.clientId := by
  unfold requestRecall
  split <;> rfl

end Delegation

structure DelegationManager where
  byFile : Table FileId Delegation
  byClient : Table ClientId (List FileId)
  nextSeqid : UInt64
  recallTimeout : ℕ

variable {file : FileId} {next : DelegationManager}

namespace DelegationManager

/-- A manager with the default recall timeout of 30 seconds, in nanoseconds. -/
def new : DelegationManager := ⟨∅, ∅, 1, 30000000000⟩

section
variable (manager : DelegationManager)

def withRecallTimeout (timeout : ℕ) : DelegationManager :=
  { manager with recallTimeout := timeout }

def clientDelegations (client : ClientId) : List FileId :=
  (manager.byClient.lookup client).getD []

def store (now : ℕ) (other : Vector UInt8 12) (file : FileId) (client : ClientId)
    (delegType : DelegationType) :
    Except GatewayError Delegation × DelegationManager :=
  let stateid : StateId := ⟨manager.nextSeqid.toUInt32, other⟩
  let delegation := Delegation.new stateid file client delegType now
  (.ok delegation, { manager with
    nextSeqid := manager.nextSeqid + 1
    byFile := manager.byFile.insert file delegation
    byClient := manager.byClient.insert client (manager.clientDelegations client ++ [file]) })

/-- Try to grant a delegation. The unique part of its state ID comes from the clock and a
random source. -/
def grant (now : ℕ) (other : Vector UInt8 12) (file : FileId) (client : ClientId)
    (delegType : DelegationType) :
    Except GatewayError Delegation × DelegationManager :=
  match manager.byFile.lookup file with
  | some existing =>
    if existing.state = .active then
      if existing.clientId = client then
        if delegType.isExclusive && !existing.delegType.isExclusive then
          (.error (.delegationConflict "upgrade requires recall"), manager)
        else (.ok (.new existing.stateid file client existing.delegType now), manager)
      else (.error (.delegationConflict "file already delegated"), manager)
    else manager.store now other file client delegType
  | none => manager.store now other file client delegType

def recallDelegation (now : ℕ) (file : FileId) : Except GatewayError Unit × DelegationManager :=
  match manager.byFile.lookup file with
  | some delegation => (.ok (), { manager with
      byFile := manager.byFile.insert file (delegation.requestRecall now) })
  | none => (.error (.delegationConflict "no delegation to recall"), manager)

def unlist (client : ClientId) (file : FileId) : Table ClientId (List FileId) :=
  match manager.byClient.lookup client with
  | some files => manager.byClient.insert client (files.filter (· ≠ file))
  | none => manager.byClient

/-- Return a delegation voluntarily. The delegation of another client is put back. -/
def returnDelegation (file : FileId) (client : ClientId) :
    Except GatewayError Unit × DelegationManager :=
  match manager.byFile.lookup file with
  | some delegation =>
    let byFile := manager.byFile.erase file
    if delegation.clientId ≠ client then
      (.error (.permissionDenied "not delegation owner"),
        { manager with byFile := byFile.insert file delegation })
    else
      (.ok (), { manager with byFile := byFile, byClient := manager.unlist client file })
  | none => (.error (.delegationConflict "no delegation to return"), manager)

def revoke (file : FileId) : Option Delegation × DelegationManager :=
  match manager.byFile.lookup file with
  | some delegation => (some delegation.revoke, { manager with
      byFile := manager.byFile.erase file
      byClient := manager.unlist delegation.clientId file })
  | none => (none, manager)

def revokeAll (client : ClientId) : List FileId × DelegationManager :=
  let files := manager.clientDelegations client
  let revoked := files.foldl (fun manager file => (manager.revoke file).2) manager
  (files, { revoked with byClient := revoked.byClient.erase client })

def expiredRecalls (now : ℕ) : List FileId :=
  (manager.byFile.entries.filter
    fun entry => entry.2.recallExpired manager.recallTimeout now).map Sigma.fst

def cleanupExpiredRecalls (now : ℕ) : List FileId × DelegationManager :=
  let expired := manager.expiredRecalls now
  (expired, expired.foldl (fun manager file => (manager.revoke file).2) manager)

def holder (file : FileId) : Option ClientId :=
  (manager.byFile.lookup file).map Delegation.clientId

end

variable {delegation : Delegation}

theorem holder_of_lookup {manager : DelegationManager}
    (found : manager.byFile.lookup file = some delegation) :
    manager.holder file = some delegation.clientId := by
  rw [holder, found, map_some]

theorem holder_of_insert {manager : DelegationManager}
    (inserted : next.byFile = manager.byFile.insert file delegation) (query : FileId) :
    next.holder query =
      if query = file then some delegation.clientId else manager.holder query := by
  rw [holder, inserted, lookup_insert_eq]
  split
  · rfl
  · rfl

theorem holder_of_erase {manager : DelegationManager}
    (erased : next.byFile = manager.byFile.erase file) (query : FileId) :
    next.holder query = if query = file then none else manager.holder query := by
  rw [holder, erased, lookup_erase_eq]
  split
  · rfl
  · rfl

variable (manager : DelegationManager) (now : ℕ) (other : Vector UInt8 12)

theorem holder_store (file : FileId) (client : ClientId) (delegType : DelegationType)
    (query : FileId) :
    (manager.store now other file client delegType).2.holder query =
      if query = file then some client else manager.holder query := by
  have inserted : (manager.store now other file client delegType).2.byFile =
      manager.byFile.insert file
        (.new ⟨manager.nextSeqid.toUInt32, other⟩ file client delegType now) := rfl
  exact holder_of_insert inserted query

/-- A grant fails on an active delegation only, and otherwise records the client. -/
theorem grant_cases (file : FileId) (client : ClientId) (delegType : DelegationType) :
    (∃ failure existing,
      manager.grant now other file client delegType = (.error failure, manager) ∧
      manager.byFile.lookup file = some existing ∧ existing.state = .active) ∨
    ∃ delegation next, manager.grant now other file client delegType = (.ok delegation, next) ∧
      (∀ existing, manager.byFile.lookup file = some existing → existing.state = .active →
        existing.clientId = client) ∧
      ∀ query, next.holder query = if query = file then some client else manager.holder query := by
  unfold grant
  split
  · next existing found =>
    split
    · next active =>
      split
      · next own =>
        split
        · exact .inl ⟨_, existing, rfl, found, active⟩
        · refine .inr ⟨_, manager, rfl, fun other same _ => ?_, fun query => ?_⟩
          · obtain rfl := some.inj (found.symm.trans same)
            exact own
          · split
            · next here => rw [here, holder_of_lookup found, own]
            · rfl
      · exact .inl ⟨_, existing, rfl, found, active⟩
    · next idle =>
      refine .inr ⟨_, _, rfl, fun other same active => ?_,
        manager.holder_store now other file client delegType⟩
      obtain rfl := some.inj (found.symm.trans same)
      exact absurd active idle
  · next missing =>
    refine .inr ⟨_, _, rfl, fun existing found => ?_,
      manager.holder_store now other file client delegType⟩
    cases missing.symm.trans found

/-- A delegation that a granted client may replace, and that no recall is pending on for another
client, is the client's own. -/
theorem holder_eq_client {manager : DelegationManager} {client holder : ClientId}
    (own : ∀ existing, manager.byFile.lookup file = some existing → existing.state = .active →
      existing.clientId = client)
    (settled : ∀ existing, manager.byFile.lookup file = some existing →
      existing.clientId ≠ client → existing.state = .active)
    (held : manager.holder file = some holder) : holder = client := by
  obtain ⟨existing, found, rfl⟩ := map_eq_some_iff.mp held
  by_contra foreign
  exact foreign (own existing found (settled existing found foreign))

theorem holder_recallDelegation (file query : FileId) :
    (manager.recallDelegation now file).2.holder query = manager.holder query := by
  unfold recallDelegation
  split
  · next delegation found =>
    rw [holder_of_insert rfl]
    split
    · next here => rw [here, holder_of_lookup found, Delegation.clientId_requestRecall]
    · rfl
  · rfl

theorem returnDelegation_cases (file : FileId) (client : ClientId) :
    (∃ failure next, manager.returnDelegation file client = (.error failure, next) ∧
      ∀ query, next.holder query = manager.holder query) ∨
    ∃ next, manager.returnDelegation file client = (.ok (), next) ∧
      manager.holder file = some client ∧
      ∀ query, next.holder query = if query = file then none else manager.holder query := by
  unfold returnDelegation
  split
  · next delegation found =>
    dsimp only
    split
    · refine .inl ⟨_, _, rfl, fun query => ?_⟩
      rw [holder, lookup_insert_eq, lookup_erase_eq]
      split
      · next here => rw [here, holder_of_lookup found, map_some]
      · rfl
    · next own =>
      refine .inr ⟨_, rfl, ?_, holder_of_erase rfl⟩
      rw [holder_of_lookup found, not_not.mp own]
  · exact .inl ⟨_, manager, rfl, fun _ => rfl⟩

theorem revoke_cases (file : FileId) :
    (manager.revoke file = (none, manager) ∧ manager.holder file = none) ∨
    ∃ delegation next, manager.revoke file = (some delegation, next) ∧
      manager.holder file = some delegation.clientId ∧
      ∀ query, next.holder query = if query = file then none else manager.holder query := by
  unfold revoke
  split
  · next delegation found =>
    have held : manager.holder file = some delegation.clientId := holder_of_lookup found
    exact .inr ⟨delegation.revoke, _, rfl, held, holder_of_erase rfl⟩
  · next missing => exact .inl ⟨rfl, by rw [holder, missing, map_none]⟩

end DelegationManager

/-- Calls of the delegation manager. Each one carries the time at which it is made, and a grant
the unique part of its state ID. -/
inductive DelegationCall where
  | grant (now : ℕ) (other : Vector UInt8 12) (file : FileId) (client : ClientId)
      (delegType : DelegationType)
  | recallDelegation (now : ℕ) (file : FileId)
  | returnDelegation (file : FileId) (client : ClientId)
  | revoke (file : FileId)
  | revokeAll (client : ClientId)
  | cleanupExpiredRecalls (now : ℕ)

/-- A delegation manager, and the files that clients were granted and have neither returned nor
had revoked. -/
structure Custody where
  manager : DelegationManager
  holders : List (FileId × ClientId)

namespace Custody

def new (recallTimeout : ℕ) : Custody := ⟨DelegationManager.new.withRecallTimeout recallTimeout, []⟩

section
variable (custody : Custody)

def grant (now : ℕ) (other : Vector UInt8 12) (file : FileId) (client : ClientId)
    (delegType : DelegationType) : Custody :=
  let (answer, manager) := custody.manager.grant now other file client delegType
  match answer with
  | .ok _ => ⟨manager, (file, client) :: custody.holders⟩
  | .error _ => ⟨manager, custody.holders⟩

def returnDelegation (file : FileId) (client : ClientId) : Custody :=
  let (answer, manager) := custody.manager.returnDelegation file client
  match answer with
  | .ok _ => ⟨manager, custody.holders.filter (· ≠ (file, client))⟩
  | .error _ => ⟨manager, custody.holders⟩

def revoke (file : FileId) : Custody :=
  let (revoked, manager) := custody.manager.revoke file
  match revoked with
  | some delegation => ⟨manager, custody.holders.filter (· ≠ (file, delegation.clientId))⟩
  | none => ⟨manager, custody.holders⟩

def revokeAll (client : ClientId) : Custody :=
  let revoked := (custody.manager.clientDelegations client).foldl revoke custody
  { revoked with manager := { revoked.manager with
      byClient := revoked.manager.byClient.erase client } }

def cleanupExpiredRecalls (now : ℕ) : Custody :=
  (custody.manager.expiredRecalls now).foldl revoke custody

def step : DelegationCall → Custody
  | .grant now other file client delegType => custody.grant now other file client delegType
  | .recallDelegation now file =>
    { custody with manager := (custody.manager.recallDelegation now file).2 }
  | .returnDelegation file client => custody.returnDelegation file client
  | .revoke file => custody.revoke file
  | .revokeAll client => custody.revokeAll client
  | .cleanupExpiredRecalls now => custody.cleanupExpiredRecalls now

end

variable (files : List FileId)

section
variable (custody : Custody)
include custody

theorem manager_revoke (file : FileId) :
    (custody.revoke file).manager = (custody.manager.revoke file).2 := by
  unfold revoke
  rcases custody.manager.revoke file with ⟨_ | delegation, manager⟩
  · rfl
  · rfl

theorem manager_foldl_revoke :
    (files.foldl revoke custody).manager =
      files.foldl (fun manager file => (manager.revoke file).2) custody.manager := by
  induction files generalizing custody with
  | nil => rfl
  | cons file rest ih => rw [List.foldl_cons, List.foldl_cons, ih, manager_revoke]

theorem manager_revokeAll (client : ClientId) :
    (custody.revokeAll client).manager = (custody.manager.revokeAll client).2 := by
  simp only [revokeAll, DelegationManager.revokeAll, manager_foldl_revoke]

theorem manager_cleanupExpiredRecalls (now : ℕ) :
    (custody.cleanupExpiredRecalls now).manager = (custody.manager.cleanupExpiredRecalls now).2 :=
  custody.manager_foldl_revoke _

end

/-- A grant to one client succeeds only if no other client holds the file. -/
def Handover (custody : Custody) : DelegationCall → Prop
  | .grant now other file client delegType =>
    (custody.manager.grant now other file client delegType).1.isOk →
      ∀ holder, (file, holder) ∈ custody.holders → holder = client
  | _ => True

/-- No client asks for a file while its recall from another client is pending. -/
def Settled (custody : Custody) : DelegationCall → Prop
  | .grant _ _ file client _ => ∀ existing, custody.manager.byFile.lookup file = some existing →
      existing.clientId ≠ client → existing.state = .active
  | _ => True

/-- The manager records the holders. -/
def Recorded (custody : Custody) : Prop :=
  ∀ file client, (file, client) ∈ custody.holders ↔ custody.manager.holder file = some client

variable {custody : Custody}

section
variable (recorded : custody.Recorded)
include recorded

theorem Recorded.remove {client : ClientId} (held : custody.manager.holder file = some client)
    (holders : ∀ query, next.holder query =
      if query = file then none else custody.manager.holder query) :
    Recorded ⟨next, custody.holders.filter (· ≠ (file, client))⟩ := by
  intro query other
  rw [List.mem_filter, recorded, holders]
  split
  · next here =>
    subst here
    rw [held]
    simp only [ne_eq, decide_eq_true_eq, Prod.mk.injEq, true_and, some.injEq, reduceCtorEq,
      iff_false, not_and, not_not]
    exact Eq.symm
  · next elsewhere => simp [elsewhere]

theorem Recorded.revoke (file : FileId) : (custody.revoke file).Recorded := by
  rcases custody.manager.revoke_cases file with
    ⟨revoked, -⟩ | ⟨delegation, next, revoked, held, holders⟩
  · simp only [Custody.revoke, revoked]
    exact recorded
  · simp only [Custody.revoke, revoked]
    exact recorded.remove held holders

theorem Recorded.foldl_revoke :
    (files.foldl Custody.revoke custody).Recorded := by
  induction files generalizing custody with
  | nil => exact recorded
  | cons file rest ih => exact ih (recorded.revoke file)

theorem Recorded.step {call : DelegationCall} (settled : custody.Settled call) :
    (custody.step call).Recorded := by
  cases call with
  | grant now other file client delegType =>
    rcases custody.manager.grant_cases now other file client delegType with
      ⟨failure, existing, granted, -⟩ | ⟨delegation, next, granted, own, holders⟩
    · simp only [Custody.step, Custody.grant, granted]
      exact recorded
    · simp only [Custody.step, Custody.grant, granted]
      intro query holder
      rw [List.mem_cons, recorded, holders]
      split
      · next here =>
        subst here
        rw [Prod.mk.injEq, some.injEq]
        constructor
        · rintro (⟨-, rfl⟩ | held)
          · rfl
          · exact (DelegationManager.holder_eq_client own settled held).symm
        · rintro rfl
          exact .inl ⟨rfl, rfl⟩
      · next elsewhere => simp [elsewhere]
  | recallDelegation now file =>
    intro query client
    refine (recorded query client).trans ?_
    exact Eq.congr_left (custody.manager.holder_recallDelegation now file query).symm
  | returnDelegation file client =>
    rcases custody.manager.returnDelegation_cases file client with
      ⟨failure, next, returned, holders⟩ | ⟨next, returned, held, holders⟩
    · simp only [Custody.step, Custody.returnDelegation, returned]
      intro query holder
      rw [recorded, holders]
    · simp only [Custody.step, Custody.returnDelegation, returned]
      exact recorded.remove held holders
  | revoke file => exact recorded.revoke file
  | revokeAll client =>
    exact recorded.foldl_revoke _
  | cleanupExpiredRecalls now => exact recorded.foldl_revoke _

theorem handover_iff_settled (call : DelegationCall) :
    custody.Handover call ↔ custody.Settled call := by
  cases call with
  | grant now other file client delegType =>
    rcases custody.manager.grant_cases now other file client delegType with
      ⟨failure, blocking, granted, found, active⟩ | ⟨delegation, next, granted, own, -⟩
    · refine iff_of_true ?_ ?_
      · intro succeeded
        rw [granted] at succeeded
        exact absurd succeeded Bool.false_ne_true
      · intro existing present _
        rwa [← some.inj (found.symm.trans present)]
    · constructor
      · intro handover existing found foreign
        have held : (file, existing.clientId) ∈ custody.holders :=
          (recorded file _).mpr (DelegationManager.holder_of_lookup found)
        exact absurd (handover (by rw [granted]; rfl) _ held) foreign
      · intro settled _ holder held
        exact DelegationManager.holder_eq_client own settled ((recorded file holder).mp held)
  | _ => exact Iff.rfl

end

/-- A delegation changes hands only after it was given back, in every step of a run, exactly if
no client asks for a file while its recall from another client is pending. -/
theorem handover_iff (recallTimeout : ℕ) (calls : List DelegationCall) :
    Run.Guarded step Handover (new recallTimeout) calls ↔
      Run.Guarded step Settled (new recallTimeout) calls := by
  refine Run.guarded_congr Recorded (fun _ call recorded => handover_iff_settled recorded call)
    (fun _ _ recorded settled => recorded.step settled) ?_ calls
  intro file client
  exact iff_of_false List.not_mem_nil nofun

/-- The first client's delegation is recalled, and the second client is granted the file before
the first one returns it. -/
theorem recalled_delegation_replaced :
    ¬ Run.Guarded step Handover (new 30000000000)
      [.grant 0 (.replicate 12 0) 1 ⟨1⟩ .write, .recallDelegation 1 1,
        .grant 2 (.replicate 12 1) 1 ⟨2⟩ .write] := by
  intro guarded
  have same : (⟨1⟩ : ClientId) = ⟨2⟩ := guarded.2.2.1 (by decide +kernel) ⟨1⟩ (by decide +kernel)
  exact absurd same (by decide)

end Custody

namespace DelegationManager

/-- Every delegation is in the list of its client. -/
def Listed (manager : DelegationManager) : Prop :=
  ∀ file delegation, manager.byFile.lookup file = some delegation →
    file ∈ manager.clientDelegations delegation.clientId

theorem lookup_revoke (manager : DelegationManager) (file query : FileId) :
    (manager.revoke file).2.byFile.lookup query =
      if query = file then none else manager.byFile.lookup query := by
  unfold revoke
  split
  · exact lookup_erase_eq ..
  · next missing =>
    split
    · next here => rw [here, missing]
    · rfl

theorem lookup_foldl_revoke (files : List FileId) (manager : DelegationManager) (query : FileId) :
    (files.foldl (fun manager file => (manager.revoke file).2) manager).byFile.lookup query =
      if query ∈ files then none else manager.byFile.lookup query := by
  induction files generalizing manager with
  | nil => rw [if_neg List.not_mem_nil, List.foldl_nil]
  | cons file rest ih =>
    rw [List.foldl_cons, ih, lookup_revoke, ← ite_or]
    simp only [List.mem_cons, or_comm]

theorem lookup_revokeAll (manager : DelegationManager) (client : ClientId) (query : FileId) :
    (manager.revokeAll client).2.byFile.lookup query =
      if query ∈ manager.clientDelegations client then none else manager.byFile.lookup query :=
  lookup_foldl_revoke _ manager query

/-- Only one file leaves the list of a client. -/
theorem mem_unlist {manager : DelegationManager} {client owner : ClientId} {query : FileId}
    (listed : query ∈ manager.clientDelegations owner) (other : query ≠ file) :
    query ∈ ((manager.unlist client file).lookup owner).getD [] := by
  unfold unlist
  split
  · next files found =>
    rw [lookup_insert_eq]
    split
    · next same =>
      rw [clientDelegations, same, found] at listed
      exact List.mem_filter.mpr ⟨listed, decide_eq_true other⟩
    · exact listed
  · exact listed

variable {manager : DelegationManager}

variable (listed : manager.Listed) (now : ℕ) (other : Vector UInt8 12) (client : ClientId)
  (delegType : DelegationType)
include listed

theorem Listed.remove (erased : next.byFile = manager.byFile.erase file)
    {client : ClientId} (unlisted : next.byClient = manager.unlist client file) : next.Listed := by
  intro query delegation found
  rw [erased, lookup_erase_eq] at found
  split at found
  · cases found
  · next other =>
    rw [clientDelegations, unlisted]
    exact mem_unlist (listed query delegation found) other

theorem Listed.revoke (file : FileId) : (manager.revoke file).2.Listed := by
  unfold DelegationManager.revoke
  split
  · exact listed.remove rfl rfl
  · exact listed

theorem Listed.foldl_revoke (files : List FileId) :
    (files.foldl (fun manager file => (manager.revoke file).2) manager).Listed := by
  induction files generalizing manager with
  | nil => exact listed
  | cons file rest ih => exact ih (listed.revoke file)

theorem Listed.revokeAll : (manager.revokeAll client).2.Listed := by
  intro query delegation found
  have kept := listed.foldl_revoke (manager.clientDelegations client) query delegation found
  rw [lookup_revokeAll] at found
  split at found
  · cases found
  · next unlisted =>
    -- A delegation of the client would have been in the list, and is gone.
    have other : delegation.clientId ≠ client := by
      rintro rfl
      exact unlisted (listed query delegation found)
    rw [clientDelegations] at kept ⊢
    rwa [← AList.lookup_erase_ne other] at kept

theorem Listed.store (file : FileId) :
    (manager.store now other file client delegType).2.Listed := by
  intro query delegation found
  rw [clientDelegations, DelegationManager.store, lookup_insert_eq]
  obtain ⟨rfl, rfl⟩ | ⟨elsewhere, found⟩ := eq_or_lookup_of_insert found
  · rw [if_pos (by rfl)]
    exact List.mem_append_right _ List.mem_cons_self
  · split
    · next same => exact List.mem_append_left _ (same ▸ listed query delegation found)
    · exact listed query delegation found

theorem Listed.grant (file : FileId) :
    (manager.grant now other file client delegType).2.Listed := by
  unfold DelegationManager.grant
  split
  · split
    · split
      · split
        · exact listed
        · exact listed
      · exact listed
    · exact listed.store now other client delegType file
  · exact listed.store now other client delegType file

theorem Listed.recallDelegation (file : FileId) :
    (manager.recallDelegation now file).2.Listed := by
  unfold DelegationManager.recallDelegation
  split
  · next delegation present =>
    intro query recalled found
    obtain ⟨rfl, rfl⟩ | ⟨-, found⟩ := eq_or_lookup_of_insert found
    · rw [Delegation.clientId_requestRecall]
      exact listed query delegation present
    · exact listed query recalled found
  · exact listed

theorem Listed.returnDelegation (file : FileId) :
    (manager.returnDelegation file client).2.Listed := by
  unfold DelegationManager.returnDelegation
  split
  · next delegation present =>
    dsimp only
    split
    · intro query kept found
      obtain ⟨rfl, rfl⟩ | ⟨elsewhere, found⟩ := eq_or_lookup_of_insert found
      · exact listed query kept present
      · rw [AList.lookup_erase_ne elsewhere] at found
        exact listed query kept found
    · exact listed.remove rfl rfl
  · exact listed

end DelegationManager

namespace Custody

theorem listed_step (custody : Custody) (call : DelegationCall) (listed : custody.manager.Listed) :
    (custody.step call).manager.Listed := by
  cases call with
  | grant now other file client delegType =>
    have granted : (custody.grant now other file client delegType).manager =
        (custody.manager.grant now other file client delegType).2 := by
      unfold grant
      dsimp only
      split
      · rfl
      · rfl
    rw [step, granted]
    exact listed.grant now other client delegType file
  | recallDelegation now file => exact listed.recallDelegation now file
  | returnDelegation file client =>
    have returned : (custody.returnDelegation file client).manager =
        (custody.manager.returnDelegation file client).2 := by
      unfold returnDelegation
      dsimp only
      split
      · rfl
      · rfl
    rw [step, returned]
    exact listed.returnDelegation client file
  | revoke file =>
    rw [step, manager_revoke]
    exact listed.revoke file
  | revokeAll client =>
    rw [step, manager_revokeAll]
    exact listed.revokeAll client
  | cleanupExpiredRecalls now =>
    rw [step, manager_cleanupExpiredRecalls]
    exact listed.foldl_revoke _

/-- **A cleanup of one client** removes exactly the delegations that the client holds, after
every run of calls, exactly if no file on the client's list is held by another client. -/
theorem revokeAll_confined_iff (recallTimeout : ℕ) (calls : List DelegationCall)
    (client : ClientId) :
    let manager := (Run.after step (new recallTimeout) calls).manager
    (∀ file, (manager.revokeAll client).2.byFile.lookup file =
        (manager.byFile.lookup file).filter fun delegation => delegation.clientId ≠ client) ↔
      ∀ file ∈ manager.clientDelegations client, ∀ delegation,
        manager.byFile.lookup file = some delegation → delegation.clientId = client := by
  intro manager
  have listed : manager.Listed := Run.invariant_of_step (fun custody : Custody =>
    custody.manager.Listed) listed_step (fun _ _ found => by cases found) calls
  simp only [DelegationManager.lookup_revokeAll]
  constructor
  · intro confined file member delegation found
    have removed := confined file
    rw [if_pos member, found] at removed
    by_contra foreign
    rw [filter_some, if_pos (decide_eq_true foreign)] at removed
    cases removed
  · intro own file
    cases found : manager.byFile.lookup file with
    | none => rw [ite_self, filter_none]
    | some delegation =>
      rw [filter_some]
      by_cases holds : delegation.clientId = client
      · subst holds
        rw [if_pos (listed file delegation found), if_neg (by simp)]
      · rw [if_neg fun member => holds (own file member delegation found),
          if_pos (decide_eq_true holds)]

/-- **A cleanup of one client is complete**: after every run of calls it leaves no file to the
client. -/
theorem revokeAll_complete (recallTimeout : ℕ) (calls : List DelegationCall) (client : ClientId)
    (file : FileId) :
    ((Run.after step (new recallTimeout) calls).manager.revokeAll client).2.holder file ≠
      some client := by
  have listed : (Run.after step (new recallTimeout) calls).manager.Listed :=
    Run.invariant_of_step (fun custody : Custody => custody.manager.Listed) listed_step
      (fun _ _ found => by cases found) calls
  rw [DelegationManager.holder, DelegationManager.lookup_revokeAll]
  split_ifs with member
  · exact nofun
  · rw [ne_eq, Option.map_eq_some_iff]
    rintro ⟨delegation, found, rfl⟩
    exact member (listed file delegation found)

/-- The second client is granted a file while its recall from the first one is pending. -/
def sampleReplacement : DelegationManager :=
  (Run.after step (new 30000000000) [.grant 0 (.replicate 12 0) 1 ⟨1⟩ .write,
    .recallDelegation 1 1, .grant 2 (.replicate 12 1) 1 ⟨2⟩ .write]).manager

/-- A cleanup of the first client then takes the delegation of the second one. -/
theorem foreign_delegation_revoked :
    sampleReplacement.holder 1 = some ⟨2⟩ ∧
      (sampleReplacement.revokeAll ⟨1⟩).2.holder 1 = none := by
  decide +kernel

end Custody

end Warp.Gateway
