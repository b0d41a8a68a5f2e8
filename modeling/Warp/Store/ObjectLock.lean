import Warp.Foundation.Outcome
import Warp.Foundation.Run
import Warp.Foundation.Table

/-! # Object lock

Setting a retention compares dates but not modes, so that a compliance retention is replaced by a
governance one with the same or a later date (`Vault.compliance_replaced`). As long as an unexpired
compliance retention is only replaced by compliance retentions, the version can be neither deleted
nor modified until it expires (`Vault.compliance_lasts`).
-/

namespace Warp.Store

abbrev DateTime := ℤ

inductive Error where
  | objectLocked (message : String)
  | invalidArgument (message : String)
deriving DecidableEq

/-- Retention mode. Governance can be overridden with special permissions, compliance cannot. -/
inductive RetentionMode where
  | governance
  | compliance
deriving DecidableEq

structure DefaultRetention where
  mode : RetentionMode
  days : Option UInt32
  years : Option UInt32
deriving DecidableEq

structure ObjectLockConfig where
  enabled : Bool
  defaultRetention : Option DefaultRetention
deriving DecidableEq

/-- Calculate the expiry date from now. Adding days panics where the date is out of range. -/
def DefaultRetention.calculateExpiry (addDays : DateTime → ℕ → Option DateTime)
    (retention : DefaultRetention) (now : DateTime) : Option DateTime :=
  match retention.days, retention.years with
  | some days, _ => addDays now days.toNat
  | none, some years => addDays now (years.toNat * 365)
  | none, none => some now

structure ObjectRetention where
  mode : RetentionMode
  retainUntilDate : DateTime
deriving DecidableEq

namespace ObjectRetention

def isExpired (retention : ObjectRetention) (now : DateTime) : Bool :=
  now ≥ retention.retainUntilDate

def canDelete (retention : ObjectRetention) (now : DateTime) (bypassGovernance : Bool) : Bool :=
  if retention.isExpired now then true
  else
    match retention.mode with
    | .governance => bypassGovernance
    | .compliance => false

end ObjectRetention

inductive LegalHoldStatus where
  | on
  | off
deriving DecidableEq

structure ObjectLockStatus where
  retention : Option ObjectRetention
  legalHold : LegalHoldStatus
deriving DecidableEq

namespace ObjectLockStatus

def default : ObjectLockStatus := ⟨none, .off⟩

def canDelete (status : ObjectLockStatus) (now : DateTime) (bypassGovernance : Bool) : Bool :=
  -- A legal hold blocks deletion regardless of permissions.
  if status.legalHold = .on then false
  else
    match status.retention with
    | some retention => retention.canDelete now bypassGovernance
    | none => true

def canModify (status : ObjectLockStatus) (now : DateTime) (bypassGovernance : Bool) : Bool :=
  status.canDelete now bypassGovernance

end ObjectLockStatus

structure ObjectVersion where
  bucket : String
  key : String
  versionId : String
deriving DecidableEq

structure ObjectLockEntry where
  version : ObjectVersion
  status : ObjectLockStatus
  modifiedAt : DateTime
deriving DecidableEq

structure ObjectLockManager where
  entries : Table ObjectVersion ObjectLockEntry
  bucketConfigs : Table String ObjectLockConfig

namespace ObjectLockManager

def new : ObjectLockManager := ⟨∅, ∅⟩

section
variable (manager : ObjectLockManager)

def enableBucketLock (bucket : String) (config : ObjectLockConfig) :
    Except Error Unit × ObjectLockManager :=
  if !config.enabled then
    (.error (.invalidArgument "Cannot set Object Lock config with enabled=false"), manager)
  else if (manager.bucketConfigs.lookup bucket).isSome then
    (.error (.invalidArgument "Object Lock is already configured on this bucket"), manager)
  else (.ok (), { manager with bucketConfigs := manager.bucketConfigs.insert bucket config })

def isBucketLocked (bucket : String) : Bool :=
  ((manager.bucketConfigs.lookup bucket).map ObjectLockConfig.enabled).getD false

def getRetention (version : ObjectVersion) : Option ObjectRetention :=
  (manager.entries.lookup version).bind (·.status.retention)

def getLockStatus (version : ObjectVersion) : ObjectLockStatus :=
  ((manager.entries.lookup version).map ObjectLockEntry.status).getD .default

def canDelete (now : DateTime) (version : ObjectVersion) (bypassGovernance : Bool) : Bool :=
  (manager.getLockStatus version).canDelete now bypassGovernance

def canModify (now : DateTime) (version : ObjectVersion) (bypassGovernance : Bool) : Bool :=
  (manager.getLockStatus version).canModify now bypassGovernance

/-- Change the status of a version's entry, or create the entry from the default status. -/
def update (now : DateTime) (version : ObjectVersion)
    (change : ObjectLockStatus → ObjectLockStatus) :
    ObjectLockManager :=
  let entry := match manager.entries.lookup version with
    | some entry => { entry with status := change entry.status, modifiedAt := now }
    | none => ⟨version, change .default, now⟩
  { manager with entries := manager.entries.insert version entry }

def setRetention (now : DateTime) (version : ObjectVersion) (retention : ObjectRetention) :
    Except Error Unit × ObjectLockManager :=
  if !manager.isBucketLocked version.bucket then
    (.error (.invalidArgument "Object Lock is not enabled on this bucket"), manager)
  else
    let accepted := manager.update now version fun status =>
      { status with retention := some retention }
    match manager.getRetention version with
    | some existing =>
      if retention.retainUntilDate < existing.retainUntilDate then
        if existing.mode = .compliance then
          (.error (.objectLocked "Cannot shorten retention period in COMPLIANCE mode"), manager)
        else (.error (.objectLocked "Cannot shorten retention period without bypass"), manager)
      else (.ok (), accepted)
    | none => (.ok (), accepted)

def setLegalHold (now : DateTime) (version : ObjectVersion) (hold : LegalHoldStatus) :
    Except Error Unit × ObjectLockManager :=
  if !manager.isBucketLocked version.bucket then
    (.error (.invalidArgument "Object Lock is not enabled on this bucket"), manager)
  else (.ok (), manager.update now version fun status => { status with legalHold := hold })

end

/-- Apply default retention from bucket config (called on object upload). -/
def applyDefaultRetention (addDays : DateTime → ℕ → Option DateTime)
    (manager : ObjectLockManager) (now : DateTime) (version : ObjectVersion) :
    Outcome Error (Option ObjectRetention) × ObjectLockManager :=
  match (manager.bucketConfigs.lookup version.bucket).bind ObjectLockConfig.defaultRetention with
  | some default =>
    match default.calculateExpiry addDays now with
    | some expiry =>
      let retention : ObjectRetention := ⟨default.mode, expiry⟩
      match manager.setRetention now version retention with
      | (.ok _, next) => (.ok (some retention), next)
      | (.error failure, next) => (.error failure, next)
    | none => (.panic, manager)
  | none => (.ok none, manager)

variable (manager : ObjectLockManager)
include manager

variable (now : DateTime)

variable (version : ObjectVersion)
include version

variable (change : ObjectLockStatus → ObjectLockStatus) (query : ObjectVersion)

theorem lookup_update :
    ((manager.update now version change).entries.lookup query).map ObjectLockEntry.status =
      if query = version then some (change (manager.getLockStatus version))
      else (manager.entries.lookup query).map ObjectLockEntry.status := by
  rw [update, Table.lookup_insert_eq]
  split
  · unfold getLockStatus
    cases manager.entries.lookup version with
    | none => rfl
    | some entry => rfl
  · rfl

theorem getLockStatus_update :
    (manager.update now version change).getLockStatus query =
      if query = version then change (manager.getLockStatus version)
      else manager.getLockStatus query := by
  rw [getLockStatus, lookup_update]
  split
  · rfl
  · rfl

theorem getRetention_eq :
    manager.getRetention version = (manager.getLockStatus version).retention := by
  unfold getRetention getLockStatus
  cases manager.entries.lookup version with
  | none => rfl
  | some entry => rfl

/-- A retention is set if its date is not before the one of the version's retention. -/
theorem getRetention_setRetention (retention : ObjectRetention) :
    (∀ query, (manager.setRetention now version retention).2.getRetention query =
      manager.getRetention query) ∨
    (∀ existing, manager.getRetention version = some existing →
      existing.retainUntilDate ≤ retention.retainUntilDate) ∧
      ∀ query, (manager.setRetention now version retention).2.getRetention query =
        if query = version then some retention else manager.getRetention query := by
  have accepted (query : ObjectVersion) :
      (manager.update now version fun status =>
        { status with retention := some retention }).getRetention query =
        if query = version then some retention else manager.getRetention query := by
    rw [getRetention_eq, getLockStatus_update, getRetention_eq]
    split
    · rfl
    · rfl
  unfold setRetention
  split
  · exact .inl fun _ => rfl
  · dsimp only
    split
    · next existing found =>
      split
      · refine .inl fun _ => ?_
        split <;> rfl
      · next long =>
        refine .inr ⟨?_, accepted⟩
        rintro _ same
        obtain rfl := Option.some.inj (found.symm.trans same)
        exact not_lt.mp long
    · next missing =>
      refine .inr ⟨fun existing found => ?_, accepted⟩
      cases missing.symm.trans found

omit version in
theorem getRetention_enableBucketLock (bucket : String) (config : ObjectLockConfig)
    (query : ObjectVersion) :
    (manager.enableBucketLock bucket config).2.getRetention query = manager.getRetention query := by
  unfold enableBucketLock
  split
  · rfl
  · split
    · rfl
    · rfl

theorem getRetention_setLegalHold (hold : LegalHoldStatus) (query : ObjectVersion) :
    (manager.setLegalHold now version hold).2.getRetention query = manager.getRetention query := by
  unfold setLegalHold
  split
  · rfl
  · rw [getRetention_eq, getLockStatus_update, getRetention_eq]
    split
    · next here => rw [here]
    · rfl

end ObjectLockManager

inductive ObjectLockCall where
  | enableBucketLock (bucket : String) (config : ObjectLockConfig)
  | setRetention (version : ObjectVersion) (retention : ObjectRetention)
  | setLegalHold (version : ObjectVersion) (hold : LegalHoldStatus)
  | applyDefaultRetention (version : ObjectVersion)

structure Vault where
  manager : ObjectLockManager
  clock : DateTime

namespace Vault

variable (addDays : DateTime → ℕ → Option DateTime)

section
variable (vault : Vault) (call : DateTime × ObjectLockCall)

def step : Vault where
  clock := call.1
  manager := match call.2 with
    | .enableBucketLock bucket config => (vault.manager.enableBucketLock bucket config).2
    | .setRetention version retention => (vault.manager.setRetention call.1 version retention).2
    | .setLegalHold version hold => (vault.manager.setLegalHold call.1 version hold).2
    | .applyDefaultRetention version =>
      (vault.manager.applyDefaultRetention addDays call.1 version).2

def requested : Option (ObjectVersion × ObjectRetention) :=
  match call.2 with
  | .enableBucketLock _ _ => none
  | .setRetention version retention => some (version, retention)
  | .setLegalHold _ _ => none
  | .applyDefaultRetention version =>
    match (vault.manager.bucketConfigs.lookup version.bucket).bind
        ObjectLockConfig.defaultRetention with
    | some default => (default.calculateExpiry addDays call.1).map fun expiry =>
      (version, ⟨default.mode, expiry⟩)
    | none => none

/-- The clock does not run backwards, and where a version has an unexpired compliance retention,
a retention with the same or a later date is asked for in compliance mode only. -/
def Lasting : Prop :=
  vault.clock ≤ call.1 ∧
    ∀ asked ∈ vault.requested addDays call, ∀ existing ∈ vault.manager.getRetention asked.1,
      existing.mode = .compliance → existing.isExpired call.1 = false →
        existing.retainUntilDate ≤ asked.2.retainUntilDate → asked.2.mode = .compliance

end

instance (vault : Vault) (call : DateTime × ObjectLockCall) :
    Decidable (vault.Lasting addDays call) := by
  unfold Lasting
  infer_instance

/-- A version carries a compliance retention until a time. -/
def Carries (vault : Vault) (version : ObjectVersion) (deadline : DateTime) : Prop :=
  vault.manager.getRetention version = some ⟨.compliance, deadline⟩
  deriving Decidable

/-- A version carries a compliance retention until a time or longer. -/
def Protected (vault : Vault) (version : ObjectVersion) (deadline : DateTime) : Prop :=
  ∃ retention, vault.manager.getRetention version = some retention ∧
    retention.mode = .compliance ∧ deadline ≤ retention.retainUntilDate

/-- What a call does to the retentions: nothing, or it sets the one it asks for, which ends no
earlier than the one it replaces. -/
theorem getRetention_step (vault : Vault) (call : DateTime × ObjectLockCall) :
    (∀ query, (vault.step addDays call).manager.getRetention query =
      vault.manager.getRetention query) ∨
    ∃ version retention, vault.requested addDays call = some (version, retention) ∧
      (∀ existing, vault.manager.getRetention version = some existing →
        existing.retainUntilDate ≤ retention.retainUntilDate) ∧
      ∀ query, (vault.step addDays call).manager.getRetention query =
        if query = version then some retention else vault.manager.getRetention query := by
  obtain ⟨now, call⟩ := call
  cases call with
  | enableBucketLock bucket config =>
    exact .inl (vault.manager.getRetention_enableBucketLock bucket config)
  | setLegalHold version hold =>
    exact .inl (vault.manager.getRetention_setLegalHold now version hold)
  | setRetention version retention =>
    refine (vault.manager.getRetention_setRetention now version retention).imp_right fun set => ?_
    exact ⟨version, retention, rfl, set⟩
  | applyDefaultRetention version =>
    simp only [step, requested, ObjectLockManager.applyDefaultRetention]
    split
    · next default _ =>
      cases default.calculateExpiry addDays now with
      | none => exact .inl fun _ => rfl
      | some expiry =>
        have set := vault.manager.getRetention_setRetention now version ⟨default.mode, expiry⟩
        dsimp only
        split <;> next done =>
          rw [done] at set
          exact set.imp_right fun set => ⟨version, _, rfl, set⟩
    · exact .inl fun _ => rfl

variable {addDays} {vault : Vault} {version : ObjectVersion}

theorem Protected.step {deadline : DateTime} (guarded : vault.Protected version deadline)
    {call : DateTime × ObjectLockCall} (lasting : vault.Lasting addDays call)
    (early : call.1 < deadline) :
    (vault.step addDays call).Protected version deadline := by
  obtain ⟨existing, found, strict, long⟩ := guarded
  rcases getRetention_step addDays vault call with
    same | ⟨changed, retention, asked, longer, retentions⟩
  · exact ⟨existing, (same version).trans found, strict, long⟩
  · by_cases here : version = changed
    · subst here
      have extended := longer existing found
      have current : existing.isExpired call.1 = false :=
        decide_eq_false (not_le.mpr (early.trans_le long))
      have mode : retention.mode = .compliance :=
        lasting.2 (version, retention) asked existing found strict current extended
      exact ⟨retention, by rw [retentions, if_pos rfl], mode, long.trans extended⟩
    · exact ⟨existing, by rw [retentions, if_neg here, found], strict, long⟩

theorem Protected.canDelete_eq_false {deadline now : DateTime}
    (guarded : vault.Protected version deadline) (early : now < deadline) (bypass : Bool) :
    vault.manager.canDelete now version bypass = false := by
  obtain ⟨retention, found, strict, long⟩ := guarded
  rw [ObjectLockManager.getRetention_eq] at found
  have current : retention.isExpired now = false :=
    decide_eq_false (not_le.mpr (early.trans_le long))
  unfold ObjectLockManager.canDelete ObjectLockStatus.canDelete
  split
  · rfl
  · simp [found, ObjectRetention.canDelete, current, strict]

/-- A version that carries a compliance retention can be neither deleted nor modified before the
retention's date, after any later calls that replace unexpired compliance retentions by
compliance retentions only. -/
theorem compliance_lasts {version : ObjectVersion} {deadline : DateTime}
    (carries : vault.Carries version deadline) {calls : List (DateTime × ObjectLockCall)}
    (lasting : Run.Guarded (step addDays) (Lasting addDays) vault calls) {now : DateTime}
    (later : (Run.after (step addDays) vault calls).clock ≤ now) (early : now < deadline)
    (bypass : Bool) :
    (Run.after (step addDays) vault calls).manager.canDelete now version bypass = false ∧
      (Run.after (step addDays) vault calls).manager.canModify now version bypass = false := by
  have kept := Run.invariant
    (fun state : Vault => state.clock < deadline → state.Protected version deadline)
    (fun state call held met before =>
      (held (met.1.trans_lt before)).step met before)
    (fun _ => ⟨⟨.compliance, deadline⟩, carries, rfl, le_rfl⟩) lasting
  have refused := (kept (later.trans_lt early)).canDelete_eq_false early bypass
  exact ⟨refused, refused⟩

def plainDays (now : DateTime) (days : ℕ) : Option DateTime := some (now + days * 86400000000000)

/-- A bucket with object lock and a version in compliance mode until time 1000. -/
def sealedVersion : Vault :=
  Run.after (step plainDays) ⟨.new, 0⟩
    [(0, .enableBucketLock "records" ⟨true, none⟩),
      (1, .setRetention ⟨"records", "report", "v1"⟩ ⟨.compliance, 1000⟩)]

/-- The retention is extended and a legal hold is set and lifted. -/
theorem compliance_lasts_extended :
    sealedVersion.Carries ⟨"records", "report", "v1"⟩ 1000 ∧
      (Run.after (step plainDays) sealedVersion
        [(2, .setRetention ⟨"records", "report", "v1"⟩ ⟨.compliance, 2000⟩),
          (3, .setLegalHold ⟨"records", "report", "v1"⟩ .on),
          (4, .setLegalHold ⟨"records", "report", "v1"⟩ .off)]).manager.canDelete 999
        ⟨"records", "report", "v1"⟩ true = false := by
  have carries : sealedVersion.Carries ⟨"records", "report", "v1"⟩ 1000 := by decide +kernel
  refine ⟨carries, (compliance_lasts carries ?_ ?_ ?_ true).1⟩
  · decide +kernel
  · decide +kernel
  · decide

/-- The compliance retention is replaced by a governance retention with the same date, and the
version can be deleted before that date. -/
theorem compliance_replaced :
    sealedVersion.Carries ⟨"records", "report", "v1"⟩ 1000 ∧
      (Run.after (step plainDays) sealedVersion
        [(2, .setRetention ⟨"records", "report", "v1"⟩ ⟨.governance, 1000⟩)]).clock ≤ 3 ∧
      (Run.after (step plainDays) sealedVersion
        [(2, .setRetention ⟨"records", "report", "v1"⟩ ⟨.governance, 1000⟩)]).manager.canDelete 3
        ⟨"records", "report", "v1"⟩ true = true := by
  refine ⟨?_, ?_, ?_⟩
  · decide +kernel
  · decide +kernel
  · decide +kernel

end Vault

end Warp.Store
