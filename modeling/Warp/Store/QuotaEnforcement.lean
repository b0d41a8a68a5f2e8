import Mathlib.Data.UInt
import Warp.Foundation.Run
import Warp.Foundation.Table
import Warp.Store.ObjectKey

/-! # Quota enforcement

An operation above an enforced hard limit is allowed during a grace period, whose start is recorded
for the scope of the policy and shared by its limits: the check of one limit records or clears it
for all. Operations above the storage limit are denied after the period only if no object was
meanwhile created within the object limit (`QuotaEnforcement.grace_period_ends`). Instants are
nanoseconds, and a call reads the clock once.
-/

namespace Warp.Store

open List

inductive QuotaScope where
  | global
  | bucket (name : Text)
  | user (name : Text)
  | namespace_ (name : Text)
  | custom (name : Text)
  deriving DecidableEq

def QuotaScope.toText : QuotaScope → Text
  | .global => "Global".toList
  | .bucket name => "Bucket:".toList ++ name
  | .user name => "User:".toList ++ name
  | .namespace_ name => "Namespace:".toList ++ name
  | .custom name => "Custom:".toList ++ name

inductive QuotaLimitType where
  | storageBytes
  | objectCount
  | requestRate
  | bandwidth
  deriving DecidableEq

structure QuotaLimit where
  limitType : QuotaLimitType
  softLimit : Option UInt64
  hardLimit : UInt64
  enforceHard : Bool
  gracePeriodSecs : Option UInt64
  alertThresholds : List UInt8

namespace QuotaLimit

variable (limit : QuotaLimit)

def percentUsed (current : UInt64) : Float :=
  if limit.hardLimit = 0 then 0.0 else current.toFloat / limit.hardLimit.toFloat * 100.0

def exceedsSoft (current : UInt64) : Bool :=
  (limit.softLimit.map fun soft => decide (soft < current)).getD false

def exceedsHard (current : UInt64) : Bool := limit.hardLimit < current

end QuotaLimit

structure QuotaPolicy where
  scope : QuotaScope
  storageLimit : Option QuotaLimit
  objectLimit : Option QuotaLimit
  enabled : Bool

structure QuotaUsage where
  storageBytes : UInt64
  objectCount : UInt64

inductive AlertLevel where
  | info
  | warning
  | critical
  | exceeded
  deriving DecidableEq

structure QuotaAlert where
  scope : QuotaScope
  level : AlertLevel
  currentUsage : UInt64
  limit : UInt64
  percentUsed : Float

def QuotaAlert.new (scope : QuotaScope) (level : AlertLevel) (currentUsage limit : UInt64) :
    QuotaAlert where
  scope
  level
  currentUsage
  limit
  percentUsed := if 0 < limit then currentUsage.toFloat / limit.toFloat * 100.0 else 0.0

structure QuotaViolation where
  scope : QuotaScope
  limitType : QuotaLimitType
  current : UInt64
  limit : UInt64
  requested : UInt64
  message : Text
  deriving DecidableEq

def QuotaViolation.new (scope : QuotaScope) (limitType : QuotaLimitType)
    (current limit requested : UInt64) : QuotaViolation where
  scope
  limitType
  current
  limit
  requested
  message := "Quota exceeded for ".toList ++ scope.toText ++ ": ".toList ++
    Nat.toDigits 10 current.toNat ++ " + ".toList ++ Nat.toDigits 10 requested.toNat ++
    " > ".toList ++ Nat.toDigits 10 limit.toNat ++ " (".toList ++
    (match limitType with
      | .storageBytes => "storage"
      | .objectCount => "objects"
      | .requestRate => "requests/sec"
      | .bandwidth => "bandwidth").toList ++ ")".toList

inductive EnforcementResult where
  | allowed
  | allowedWithWarning (alert : QuotaAlert)
  | denied (violation : QuotaViolation)

def EnforcementResult.isDenied : EnforcementResult → Bool
  | .denied _ => true
  | _ => false

/-- Quota enforcement engine: when the grace period of a scope has started. -/
structure QuotaEnforcement where
  gracePeriods : Table QuotaScope ℕ

/-- The checks, at an instant and for an operation that adds some bytes. -/
inductive QuotaCheck where
  | storageWrite
  | objectCreate
  deriving DecidableEq

structure QuotaCall where
  check : QuotaCheck
  time : ℕ
  usage : QuotaUsage
  bytes : UInt64

namespace QuotaEnforcement

def new : QuotaEnforcement := ⟨∅⟩

variable (engine : QuotaEnforcement) (now : ℕ)

def asSecs (duration : ℕ) : ℕ := duration / 10 ^ 9

def saturatingAdd (first second : UInt64) : UInt64 :=
  if first.toNat + second.toNat < 2 ^ 64 then first + second else UInt64.ofNat (2 ^ 64 - 1)

def enforce (scope : QuotaScope) (limit : QuotaLimit) (current newTotal requested : UInt64) :
    EnforcementResult :=
  if limit.enforceHard then
    .denied (.new scope limit.limitType current limit.hardLimit requested)
  else .allowedWithWarning (.new scope .exceeded newTotal limit.hardLimit)

def alert (scope : QuotaScope) (limit : QuotaLimit) (newTotal : UInt64) : EnforcementResult :=
  if limit.exceedsSoft newTotal then
    .allowedWithWarning (.new scope .warning newTotal limit.hardLimit)
  else
    match limit.alertThresholds.find? fun threshold =>
      decide (threshold.toFloat ≤ limit.percentUsed newTotal) with
    | none => .allowed
    | some threshold =>
      let level := if 90 ≤ threshold then .critical else if 75 ≤ threshold then .warning else .info
      .allowedWithWarning (.new scope level newTotal limit.hardLimit)

def checkLimit (scope : QuotaScope) (limit : QuotaLimit) (current newTotal requested : UInt64) :
    EnforcementResult × QuotaEnforcement :=
  if limit.exceedsHard newTotal then
    match limit.gracePeriodSecs with
    | some graceSecs =>
      let inGrace := (engine.gracePeriods.lookup scope).getD now
      let started : QuotaEnforcement := ⟨engine.gracePeriods.insert scope inGrace⟩
      if asSecs (now - inGrace) < graceSecs.toNat then
        (.allowedWithWarning (.new scope .critical newTotal limit.hardLimit), started)
      else (enforce scope limit current newTotal requested, started)
    | none => (enforce scope limit current newTotal requested, engine)
  else (alert scope limit newTotal, ⟨engine.gracePeriods.erase scope⟩)

def checkStorageWrite (policy : QuotaPolicy) (usage : QuotaUsage) (bytesToWrite : UInt64) :
    EnforcementResult × QuotaEnforcement :=
  if ¬policy.enabled then (.allowed, engine)
  else
    match policy.storageLimit with
    | some limit =>
      engine.checkLimit now policy.scope limit usage.storageBytes
        (saturatingAdd usage.storageBytes bytesToWrite) bytesToWrite
    | none => (.allowed, engine)

/-- Check if creating a new object is allowed: the count of objects, then the storage. -/
def checkObjectCreate (policy : QuotaPolicy) (usage : QuotaUsage) (bytes : UInt64) :
    EnforcementResult × QuotaEnforcement :=
  if ¬policy.enabled then (.allowed, engine)
  else
    match policy.objectLimit with
    | some limit =>
      let counted := engine.checkLimit now policy.scope limit usage.objectCount
        (saturatingAdd usage.objectCount 1) 1
      if counted.1.isDenied then counted
      else counted.2.checkStorageWrite now policy usage bytes
    | none => engine.checkStorageWrite now policy usage bytes

def answer (policy : QuotaPolicy) (call : QuotaCall) : EnforcementResult × QuotaEnforcement :=
  match call.check with
  | .storageWrite => engine.checkStorageWrite call.time policy call.usage call.bytes
  | .objectCreate => engine.checkObjectCreate call.time policy call.usage call.bytes

def step (policy : QuotaPolicy) (engine : QuotaEnforcement) (call : QuotaCall) :
    QuotaEnforcement := (engine.answer policy call).2

def start (policy : QuotaPolicy) (engine : QuotaEnforcement) : Option ℕ :=
  engine.gracePeriods.lookup policy.scope

end QuotaEnforcement

namespace QuotaPolicy

variable (policy : QuotaPolicy)

/-- The storage limit is enforced, after a grace period. A limit that no total can exceed is not
counted among the limits. -/
structure Enforces (limit : QuotaLimit) (graceSecs : UInt64) : Prop where
  enabled : policy.enabled
  storageLimit : policy.storageLimit = some limit
  enforceHard : limit.enforceHard
  gracePeriodSecs : limit.gracePeriodSecs = some graceSecs
  bounded : limit.hardLimit.toNat < 2 ^ 64 - 1

/-- The operation takes storage above the limit. -/
def Exceeds (limit : QuotaLimit) (call : QuotaCall) : Prop :=
  limit.hardLimit.toNat < call.usage.storageBytes.toNat + call.bytes.toNat
  deriving Decidable

/-- An object is created within the object limit. -/
def Clears (call : QuotaCall) : Prop :=
  call.check = .objectCreate ∧ ∃ limit ∈ policy.objectLimit,
    ¬limit.exceedsHard (QuotaEnforcement.saturatingAdd call.usage.objectCount 1)
  deriving Decidable

/-- An object is created above an enforced object limit without a grace period. -/
def Refuses (call : QuotaCall) : Prop :=
  call.check = .objectCreate ∧ ∃ limit ∈ policy.objectLimit,
    limit.exceedsHard (QuotaEnforcement.saturatingAdd call.usage.objectCount 1) ∧
      limit.gracePeriodSecs = none ∧ limit.enforceHard
  deriving Decidable

end QuotaPolicy

namespace QuotaEnforcement

open QuotaPolicy (Exceeds)

variable {policy : QuotaPolicy} {limit : QuotaLimit} {graceSecs : UInt64}
  {engine : QuotaEnforcement} {now : ℕ} {scope : QuotaScope} {call : QuotaCall}
  {current newTotal requested : UInt64}

theorem toNat_saturatingAdd (first second : UInt64) :
    (saturatingAdd first second).toNat = min (first.toNat + second.toNat) (2 ^ 64 - 1) := by
  unfold saturatingAdd
  split_ifs with fits
  · rw [UInt64.toNat_add, Nat.mod_eq_of_lt fits]
    omega
  · rw [min_eq_right (by omega)]
    rfl

theorem isDenied_alert : (alert scope limit newTotal).isDenied = false := by
  unfold alert
  split_ifs
  · rfl
  · split
    · rfl
    · rfl

theorem isDenied_enforce :
    (enforce scope limit current newTotal requested).isDenied = limit.enforceHard := by
  unfold enforce
  split_ifs with enforced
  · exact enforced.symm
  · exact (Bool.eq_false_of_not_eq_true enforced).symm

theorem checkLimit_of_not_exceedsHard (within : ¬limit.exceedsHard newTotal) :
    engine.checkLimit now scope limit current newTotal requested =
      (alert scope limit newTotal, ⟨engine.gracePeriods.erase scope⟩) :=
  if_neg within

section
variable (above : limit.exceedsHard newTotal)
include above

theorem checkLimit_of_gracePeriodSecs_eq_none (noGrace : limit.gracePeriodSecs = none) :
    engine.checkLimit now scope limit current newTotal requested =
      (enforce scope limit current newTotal requested, engine) := by
  unfold checkLimit
  rw [if_pos above, noGrace]

/-- Above a limit with a grace period the start is recorded, unless it was. -/
theorem lookup_checkLimit (grace : limit.gracePeriodSecs = some graceSecs) :
    (engine.checkLimit now scope limit current newTotal requested).2.gracePeriods.lookup scope =
      some ((engine.gracePeriods.lookup scope).getD now) := by
  unfold checkLimit
  rw [if_pos above, grace]
  dsimp only
  split_ifs
  · exact AList.lookup_insert _
  · exact AList.lookup_insert _

/-- Above an enforced limit the operation is denied once the grace period is over. -/
theorem isDenied_checkLimit (grace : limit.gracePeriodSecs = some graceSecs)
    (enforced : limit.enforceHard)
    (ended : (engine.gracePeriods.lookup scope).getD now + graceSecs.toNat * 10 ^ 9 ≤ now) :
    (engine.checkLimit now scope limit current newTotal requested).1.isDenied := by
  unfold checkLimit
  rw [if_pos above, grace]
  dsimp only
  rw [if_neg (by unfold asSecs; omega)]
  exact isDenied_enforce.trans enforced

end

section Calls
variable (enforces : policy.Enforces limit graceSecs)
include enforces

theorem exceedsHard_of_exceeds (exceeds : Exceeds limit call) :
    limit.exceedsHard (saturatingAdd call.usage.storageBytes call.bytes) := by
  have bounded := enforces.bounded
  unfold Exceeds at exceeds
  refine decide_eq_true (UInt64.lt_iff_toNat_lt.mpr ?_)
  rw [toNat_saturatingAdd]
  omega

theorem checkStorageWrite_eq (usage : QuotaUsage) (bytes : UInt64) :
    engine.checkStorageWrite now policy usage bytes =
      engine.checkLimit now policy.scope limit usage.storageBytes
        (saturatingAdd usage.storageBytes bytes) bytes := by
  unfold checkStorageWrite
  rw [if_neg (not_not.mpr enforces.enabled), enforces.storageLimit]

theorem start_checkStorageWrite (exceeds : Exceeds limit call) :
    start policy (engine.checkStorageWrite now policy call.usage call.bytes).2 =
      some ((start policy engine).getD now) := by
  rw [checkStorageWrite_eq enforces]
  exact lookup_checkLimit (exceedsHard_of_exceeds enforces exceeds) enforces.gracePeriodSecs

theorem isDenied_checkStorageWrite (exceeds : Exceeds limit call)
    (ended : (start policy engine).getD now + graceSecs.toNat * 10 ^ 9 ≤ now) :
    (engine.checkStorageWrite now policy call.usage call.bytes).1.isDenied := by
  rw [checkStorageWrite_eq enforces]
  exact isDenied_checkLimit (exceedsHard_of_exceeds enforces exceeds) enforces.gracePeriodSecs
    enforces.enforceHard ended

/-- The check of the count of objects comes first, when there is a limit for it. -/
theorem answer_eq {objectLimit : QuotaLimit} {counted : EnforcementResult × QuotaEnforcement}
    (create : call.check = .objectCreate) (limited : policy.objectLimit = some objectLimit)
    (checked : engine.checkLimit call.time policy.scope objectLimit call.usage.objectCount
      (saturatingAdd call.usage.objectCount 1) 1 = counted) :
    engine.answer policy call = if counted.1.isDenied then counted
      else counted.2.checkStorageWrite call.time policy call.usage call.bytes := by
  unfold answer checkObjectCreate
  rw [create, limited]
  dsimp only
  rw [if_neg (not_not.mpr enforces.enabled), checked]

variable (engine)

theorem answer_of_clears (clears : policy.Clears call) : ∃ cleared, start policy cleared = none ∧
    engine.answer policy call =
      cleared.checkStorageWrite call.time policy call.usage call.bytes := by
  obtain ⟨create, objectLimit, limited, within⟩ := clears
  refine ⟨⟨engine.gracePeriods.erase policy.scope⟩, AList.lookup_erase _ _, ?_⟩
  rw [answer_eq enforces create limited (checkLimit_of_not_exceedsHard within), isDenied_alert]
  exact if_neg Bool.false_ne_true

theorem answer_of_refuses (refuses : policy.Refuses call) :
    (engine.answer policy call).1.isDenied ∧ (engine.answer policy call).2 = engine := by
  obtain ⟨create, objectLimit, limited, above, noGrace, enforced⟩ := refuses
  rw [answer_eq enforces create limited (checkLimit_of_gracePeriodSecs_eq_none above noGrace),
    isDenied_enforce, enforced]
  exact ⟨isDenied_enforce.trans enforced, rfl⟩

/-- Otherwise the storage is checked with the start that the engine has, or that is set now. -/
theorem answer_otherwise (refuses : ¬policy.Refuses call) (clears : ¬policy.Clears call) :
    ((engine.answer policy call).1.isDenied ∧ start policy (engine.answer policy call).2 =
      some ((start policy engine).getD call.time)) ∨
    ∃ other, (start policy other).getD call.time = (start policy engine).getD call.time ∧
      engine.answer policy call =
        other.checkStorageWrite call.time policy call.usage call.bytes := by
  cases kind : call.check with
  | storageWrite =>
    refine .inr ⟨engine, rfl, ?_⟩
    unfold answer
    rw [kind]
  | objectCreate =>
    cases limited : policy.objectLimit with
    | none =>
      refine .inr ⟨engine, rfl, ?_⟩
      unfold answer checkObjectCreate
      rw [kind, limited]
      exact if_neg (not_not.mpr enforces.enabled)
    | some objectLimit =>
      have above : objectLimit.exceedsHard (saturatingAdd call.usage.objectCount 1) :=
        not_not.mp fun within => clears ⟨kind, objectLimit, limited, within⟩
      cases grace : objectLimit.gracePeriodSecs with
      | none =>
        have lenient : objectLimit.enforceHard = false :=
          Bool.eq_false_of_not_eq_true fun enforced =>
            refuses ⟨kind, objectLimit, limited, above, grace, enforced⟩
        rw [answer_eq enforces kind limited
          (checkLimit_of_gracePeriodSecs_eq_none above grace), isDenied_enforce, lenient]
        exact .inr ⟨engine, rfl, if_neg Bool.false_ne_true⟩
      | some objectSecs =>
        have recorded : start policy (engine.checkLimit call.time policy.scope objectLimit
            call.usage.objectCount (saturatingAdd call.usage.objectCount 1) 1).2 =
            some ((start policy engine).getD call.time) := lookup_checkLimit above grace
        rw [answer_eq enforces kind limited rfl]
        split_ifs with denied
        · exact .inl ⟨denied, recorded⟩
        · exact .inr ⟨_, by rw [recorded, Option.getD_some], rfl⟩

variable {engine}

/-- What a call above the storage limit does to the recorded start: it replaces, keeps, or sets
it. -/
theorem start_step (exceeds : Exceeds limit call) :
    start policy (step policy engine call) =
      if policy.Clears call then some call.time
      else if policy.Refuses call then start policy engine
      else some ((start policy engine).getD call.time) := by
  unfold step
  split_ifs with clears refuses
  · obtain ⟨cleared, unset, same⟩ := answer_of_clears engine enforces clears
    rw [same, start_checkStorageWrite enforces exceeds, unset, Option.getD_none]
  · rw [(answer_of_refuses engine enforces refuses).2]
  · obtain ⟨-, recorded⟩ | ⟨other, recorded, same⟩ :=
      answer_otherwise engine enforces refuses clears
    · exact recorded
    · rw [same, start_checkStorageWrite enforces exceeds, recorded]

/-- A call above the storage limit is denied if the start that it finds or sets is long enough
ago. -/
theorem isDenied_answer (exceeds : Exceeds limit call)
    (ended : (if policy.Clears call then call.time else (start policy engine).getD call.time) +
      graceSecs.toNat * 10 ^ 9 ≤ call.time) :
    (engine.answer policy call).1.isDenied := by
  split_ifs at ended with clears
  · obtain ⟨cleared, unset, same⟩ := answer_of_clears engine enforces clears
    rw [same]
    apply isDenied_checkStorageWrite enforces exceeds
    rwa [unset, Option.getD_none]
  · by_cases refuses : policy.Refuses call
    · exact (answer_of_refuses engine enforces refuses).1
    obtain ⟨denied, -⟩ | ⟨other, recorded, same⟩ :=
      answer_otherwise engine enforces refuses clears
    · exact denied
    · rw [same]
      apply isDenied_checkStorageWrite enforces exceeds
      rwa [recorded]

end Calls

variable {calls : List QuotaCall} {bound : ℕ}

section
variable (enforces : policy.Enforces limit graceSecs)
include enforces

theorem start_after_le (exceeds : ∀ call ∈ calls, Exceeds limit call)
    (earlier : ∀ call ∈ calls, call.time ≤ bound)
    (initially : ∀ begun ∈ start policy engine, begun ≤ bound) :
    ∀ begun ∈ start policy (Run.after (step policy) engine calls), begun ≤ bound := by
  have guarded : Run.Guarded (step policy) (fun _ call => Exceeds limit call ∧ call.time ≤ bound)
      engine calls :=
    Run.guarded_of_forall (fun call member _ => ⟨exceeds call member, earlier call member⟩) engine
  refine Run.invariant (fun engine => ∀ begun ∈ start policy engine, begun ≤ bound) ?_ initially
    guarded
  intro engine call before guarded begun recorded
  rw [start_step enforces guarded.1] at recorded
  split_ifs at recorded
  · cases recorded
    exact guarded.2
  · exact before begun recorded
  · cases recorded
    cases unset : start policy engine with
    | none => exact guarded.2
    | some begun => exact before begun unset

theorem due_after (exceeds : ∀ call ∈ calls, Exceeds limit call)
    (cleared : ∀ call ∈ calls, policy.Clears call → call.time + graceSecs.toNat * 10 ^ 9 ≤ bound)
    (initially : ∃ begun ∈ start policy engine, begun + graceSecs.toNat * 10 ^ 9 ≤ bound) :
    ∃ begun ∈ start policy (Run.after (step policy) engine calls),
      begun + graceSecs.toNat * 10 ^ 9 ≤ bound := by
  have guarded : Run.Guarded (step policy) (fun _ call => Exceeds limit call ∧
      (policy.Clears call → call.time + graceSecs.toNat * 10 ^ 9 ≤ bound)) engine calls :=
    Run.guarded_of_forall (fun call member _ => ⟨exceeds call member, cleared call member⟩) engine
  refine Run.invariant (fun engine => ∃ begun ∈ start policy engine,
    begun + graceSecs.toNat * 10 ^ 9 ≤ bound) ?_ initially guarded
  rintro engine call ⟨begun, recorded, due⟩ guarded
  rw [start_step enforces guarded.1]
  split_ifs with clears
  · exact ⟨call.time, rfl, guarded.2 clears⟩
  · exact ⟨begun, recorded, due⟩
  · exact ⟨begun, by rw [recorded]; rfl, due⟩

/-- A call that finds no start, or one that is not after it, leaves a start that is not after it,
unless it is refused for the count of objects. -/
theorem due_step (exceeds : Exceeds limit call) (refuses : ¬policy.Refuses call)
    (begun : ∀ instant ∈ start policy engine, instant ≤ call.time)
    (early : call.time + graceSecs.toNat * 10 ^ 9 ≤ bound) :
    ∃ begun ∈ start policy (step policy engine call), begun + graceSecs.toNat * 10 ^ 9 ≤ bound := by
  rw [start_step enforces exceeds]
  split_ifs
  · exact ⟨call.time, rfl, early⟩
  · refine ⟨_, rfl, ?_⟩
    cases unset : start policy engine with
    | none => exact early
    | some instant => exact (Nat.add_le_add_right (begun instant unset) _).trans early

end

/-- **The grace period ends.** Of calls that all take storage above the limit, one is denied if
objects were created within the object limit only long enough before it, and a call that long
before it was not refused for the count of objects. -/
theorem grace_period_ends (policy : QuotaPolicy) (limit : QuotaLimit) (graceSecs : UInt64)
    (enforces : policy.Enforces limit graceSecs) (engine : QuotaEnforcement)
    (calls : List QuotaCall) (last : QuotaCall)
    (ordered : (calls ++ [last]).Pairwise fun first second => first.time ≤ second.time)
    (begun : ∀ instant ∈ start policy engine, ∀ call ∈ calls ++ [last], instant ≤ call.time)
    (exceeds : ∀ call ∈ calls ++ [last], Exceeds limit call)
    (cleared : ∀ call ∈ calls ++ [last], policy.Clears call →
      call.time + graceSecs.toNat * 10 ^ 9 ≤ last.time)
    (starting : ∃ call ∈ calls ++ [last], ¬policy.Refuses call ∧
      call.time + graceSecs.toNat * 10 ^ 9 ≤ last.time) :
    ((Run.after (step policy) engine calls).answer policy last).1.isDenied := by
  have isLast : last ∈ calls ++ [last] := mem_append_right _ mem_cons_self
  have isCall : ∀ {call}, call ∈ calls → call ∈ calls ++ [last] := mem_append_left _
  apply isDenied_answer enforces (exceeds last isLast)
  split_ifs with clears
  · exact cleared last isLast clears
  obtain ⟨starter, member, refuses, early⟩ := starting
  obtain ⟨inOrder, -, beforeLast⟩ := pairwise_append.mp ordered
  rcases mem_append.mp member with among | same
  · -- the period has been started by a call before, and every later start is early enough
    obtain ⟨before, rest, rfl⟩ := append_of_mem among
    obtain ⟨-, -, beforeStarter⟩ := pairwise_append.mp inOrder
    have past := start_after_le enforces
      (fun call earlier => exceeds call (isCall (mem_append_left _ earlier)))
      (fun call earlier => beforeStarter call earlier starter mem_cons_self)
      (fun instant recorded => begun instant recorded starter member)
    have isLater : ∀ {call}, call ∈ rest → call ∈ (before ++ starter :: rest) ++ [last] :=
      fun later => isCall (mem_append_right _ (mem_cons_of_mem _ later))
    obtain ⟨instant, recorded, due⟩ := due_after enforces
      (fun call later => exceeds call (isLater later))
      (fun call later => cleared call (isLater later))
      (due_step enforces (exceeds starter member) refuses past early)
    rw [Run.after_append, Run.after_cons, recorded]
    exact due
  · -- without a grace period, it is enough that the start is not after the call
    cases mem_singleton.mp same
    have past := start_after_le enforces (fun call earlier => exceeds call (isCall earlier))
      (fun call earlier => beforeLast call earlier last mem_cons_self)
      (fun instant recorded => begun instant recorded last member)
    cases recorded : start policy (Run.after (step policy) engine calls) with
    | none => exact early
    | some instant => exact (Nat.add_le_add_right (past instant recorded) _).trans early

/-- A bucket of a hundred bytes and ten objects, both enforced, the storage after an hour. -/
def samplePolicy : QuotaPolicy where
  scope := .bucket "logs".toList
  storageLimit := some ⟨.storageBytes, none, 100, true, some 3600, []⟩
  objectLimit := some ⟨.objectCount, none, 10, true, none, []⟩
  enabled := true

/-- A byte is written to a full bucket, or an object of one byte is created there. -/
def sampleCall (check : QuotaCheck) (secs : ℕ) (objects : UInt64) : QuotaCall :=
  ⟨check, secs * 10 ^ 9, ⟨100, objects⟩, 1⟩

/-- Of two writes an hour apart, the second is denied. -/
theorem grace_period_ends_write :
    ((Run.after (step samplePolicy) new [sampleCall .storageWrite 0 5]).answer samplePolicy
      (sampleCall .storageWrite 3600 5)).1.isDenied :=
  grace_period_ends samplePolicy ⟨.storageBytes, none, 100, true, some 3600, []⟩ 3600
    ⟨rfl, rfl, rfl, rfl, by decide⟩ new [sampleCall .storageWrite 0 5]
    (sampleCall .storageWrite 3600 5) (by decide) (fun _ recorded => nomatch recorded) (by decide)
    (by decide) ⟨_, mem_cons_self, by decide, by decide⟩

/-- An object created after half an hour restarts the grace period of the storage, and one that is
refused for the count of objects does not start it. -/
theorem grace_period_restarted :
    (∀ call ∈ [sampleCall .storageWrite 0 5, sampleCall .objectCreate 1800 5,
        sampleCall .objectCreate 0 10, sampleCall .storageWrite 3600 5],
      Exceeds ⟨.storageBytes, none, 100, true, some 3600, []⟩ call) ∧
    ((Run.after (step samplePolicy) new [sampleCall .storageWrite 0 5,
      sampleCall .objectCreate 1800 5]).answer samplePolicy
        (sampleCall .storageWrite 3600 5)).1.isDenied = false ∧
    ((Run.after (step samplePolicy) new [sampleCall .objectCreate 0 10]).answer samplePolicy
      (sampleCall .storageWrite 3600 5)).1.isDenied = false := by
  decide

end QuotaEnforcement

end Warp.Store
