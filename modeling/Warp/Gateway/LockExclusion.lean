import Warp.Foundation.Run
import Warp.Gateway.Lock

/-! # Exclusion between byte-range locks

A lock is held from its acquisition until its token is released, in the mode that the last upgrade
or downgrade gave it. As long as no shared lock is acquired at the offset of an unexpired shared
lock, which it would replace (`Tenancy.replaced_lock_overlapped`), and none at the largest offset,
held locks of different owners exclude each other (`Tenancy.locks_exclude`).
-/

namespace Warp.Gateway

open ByteRangeLock List InMemoryLockManager

inductive LockOperation where
  | acquire (lock : ByteRangeLock)
  | release (token : LockToken)
  | upgrade (token : LockToken)
  | downgrade (token : LockToken)
  | releaseAll (owner : ClientId)
  | expireLocks

structure LockCall where
  elapsed : ℕ
  operation : LockOperation

structure Tenancy where
  manager : InMemoryLockManager
  held : List ByteRangeLock
  now : ℕ

def ByteRangeLock.inMode (token : LockToken) (mode : LockMode) (lock : ByteRangeLock) :
    ByteRangeLock :=
  if lock.token = token then { lock with mode := mode } else lock

namespace ByteRangeLock

variable (token : LockToken) (mode : LockMode) (lock : ByteRangeLock)

@[simp] theorem token_inMode : (lock.inMode token mode).token = lock.token := by
  unfold inMode
  split <;> rfl

@[simp] theorem owner_inMode : (lock.inMode token mode).owner = lock.owner := by
  unfold inMode
  split <;> rfl

@[simp] theorem fileId_inMode : (lock.inMode token mode).fileId = lock.fileId := by
  unfold inMode
  split <;> rfl

@[simp] theorem isExpired_inMode (now : ℕ) :
    (lock.inMode token mode).isExpired now = lock.isExpired now := by
  unfold inMode
  split <;> rfl

end ByteRangeLock

namespace Tenancy

def new : Tenancy := ⟨.new, [], 0⟩

def serve (tenancy : Tenancy) : LockOperation → Tenancy
  | .acquire lock =>
    let (answer, manager) := tenancy.manager.acquire tenancy.now lock
    match answer with
    | .ok token => { tenancy with
        manager := manager, held := { lock with token := token } :: tenancy.held }
    | .error _ => { tenancy with manager := manager }
  | .release token =>
    let (answer, manager) := tenancy.manager.release token
    match answer with
    | .ok _ => { tenancy with
        manager := manager, held := tenancy.held.filter (·.token ≠ token) }
    | .error _ => { tenancy with manager := manager }
  | .upgrade token =>
    let (answer, manager) := tenancy.manager.upgrade tenancy.now token
    match answer with
    | .ok _ => { tenancy with
        manager := manager, held := tenancy.held.map (.inMode token .exclusive) }
    | .error _ => { tenancy with manager := manager }
  | .downgrade token =>
    let (answer, manager) := tenancy.manager.downgrade token
    match answer with
    | .ok _ => { tenancy with
        manager := manager, held := tenancy.held.map (.inMode token .shared) }
    | .error _ => { tenancy with manager := manager }
  | .releaseAll owner => { tenancy with
      manager := (tenancy.manager.releaseAll owner).2
      held := tenancy.held.filter (·.owner ≠ owner) }
  | .expireLocks => { tenancy with manager := (tenancy.manager.expireLocks tenancy.now).2 }

def wait (tenancy : Tenancy) (elapsed : ℕ) : Tenancy :=
  { tenancy with now := tenancy.now + elapsed }

def step (tenancy : Tenancy) (call : LockCall) : Tenancy :=
  (tenancy.wait call.elapsed).serve call.operation

/-- Unexpired locks that different owners hold on a file have no byte in common if one of them
is exclusive. -/
def Exclusive (tenancy : Tenancy) : Prop :=
  ∀ first ∈ tenancy.held, ∀ second ∈ tenancy.held,
    first.fileId = second.fileId → first.owner ≠ second.owner →
    first.isExpired tenancy.now = false → second.isExpired tenancy.now = false →
    first.mode = .exclusive ∨ second.mode = .exclusive →
      ∀ byte, ¬ (first.Covers byte ∧ second.Covers byte)

/-- A lock is requested below the largest offset, not in shared mode at the offset of an
unexpired shared lock, and before the tokens are used up. -/
def Separate (tenancy : Tenancy) (call : LockCall) : Prop :=
  match call.operation with
  | .acquire lock =>
    lock.offset ≠ u64Max ∧ tenancy.manager.nextToken ≠ u64Max ∧
      ∀ stored ∈ tenancy.manager.getFileLocks lock.fileId, stored.offset = lock.offset →
        stored.isExpired (tenancy.now + call.elapsed) = false →
          stored.mode = .exclusive ∨ lock.mode = .exclusive
  | _ => True

instance (tenancy : Tenancy) (call : LockCall) : Decidable (tenancy.Separate call) := by
  unfold Separate
  split <;> infer_instance

/-- What holds of the stored and the held locks after every run of separate calls. -/
structure Sound (tenancy : Tenancy) : Prop where
  filed : ∀ {file lock}, lock ∈ tenancy.manager.getFileLocks file → lock.fileId = file
  inner : ∀ {file lock}, lock ∈ tenancy.manager.getFileLocks file → lock.offset ≠ u64Max
  named : ∀ {file lock other query}, lock ∈ tenancy.manager.getFileLocks file →
    other ∈ tenancy.manager.getFileLocks query → lock.token = other.token → lock = other
  issued : ∀ {file lock}, lock ∈ tenancy.manager.getFileLocks file →
    lock.token.value.toNat < tenancy.manager.nextToken.toNat
  listed : ∀ {owner token}, token ∈ tenancy.manager.tokensOf owner →
    token.value.toNat < tenancy.manager.nextToken.toNat
  given : ∀ {lock}, lock ∈ tenancy.held → lock.token.value.toNat < tenancy.manager.nextToken.toNat
  owned : ∀ {owner lock}, lock.token ∈ tenancy.manager.tokensOf owner → lock ∈ tenancy.held →
    lock.owner = owner
  kept : ∀ {lock}, lock ∈ tenancy.held → lock.isExpired tenancy.now = false →
    lock ∈ tenancy.manager.getFileLocks lock.fileId
  apart : ∀ {file lock other}, lock ∈ tenancy.manager.getFileLocks file →
    other ∈ tenancy.manager.getFileLocks file → lock.owner ≠ other.owner →
    lock.isExpired tenancy.now = false → other.isExpired tenancy.now = false →
    lock.mode = .exclusive → lock.overlaps other.offset other.length = false

variable {tenancy : Tenancy}

theorem sound_new : new.Sound where
  filed := nofun
  inner := nofun
  named := nofun
  issued := nofun
  listed := nofun
  given := nofun
  owned := nofun
  kept := nofun
  apart := nofun

section
variable (sound : tenancy.Sound)
include sound

theorem Sound.exclusive : tenancy.Exclusive := by
  intro first heldFirst second heldSecond file owners currentFirst currentSecond mode byte
  rintro ⟨inFirst, inSecond⟩
  have storedFirst := sound.kept heldFirst currentFirst
  have storedSecond := sound.kept heldSecond currentSecond
  rw [← file] at storedSecond
  have overlap := overlaps_of_covers (sound.inner storedFirst)
    (sound.inner storedSecond) inFirst inSecond
  rcases mode with exclusive | exclusive
  · have clear := sound.apart storedFirst storedSecond owners currentFirst currentSecond exclusive
    exact Bool.false_ne_true (clear.symm.trans overlap)
  · have clear := sound.apart storedSecond storedFirst owners.symm currentSecond currentFirst
      exclusive
    rw [overlaps_comm] at overlap
    exact Bool.false_ne_true (clear.symm.trans overlap)

theorem Sound.wait (elapsed : ℕ) : (tenancy.wait elapsed).Sound := by
  have earlier {lock : ByteRangeLock}
      (current : lock.isExpired (tenancy.wait elapsed).now = false) :
      lock.isExpired tenancy.now = false :=
    isExpired_mono (Nat.le_add_right _ _) current
  exact { sound with
    kept := fun held current => sound.kept held (earlier current)
    apart := fun stored other owners current otherCurrent =>
      sound.apart stored other owners (earlier current) (earlier otherCurrent) }

variable {next : InMemoryLockManager} {held : List ByteRangeLock}

/-- Taking away locks that are expired or no longer held. -/
theorem Sound.shrinks {dropped : ByteRangeLock → Prop}
    (shrinks : InMemoryLockManager.Shrinks dropped tenancy.manager next)
    (fewer : ∀ lock ∈ held, lock ∈ tenancy.held)
    (spared : ∀ lock ∈ held, lock.isExpired tenancy.now = false → ¬ dropped lock) :
    Sound { tenancy with manager := next, held := held } where
  filed stored := sound.filed (shrinks.stored stored)
  inner stored := sound.inner (shrinks.stored stored)
  named stored other := sound.named (shrinks.stored stored) (shrinks.stored other)
  issued stored := (sound.issued (shrinks.stored stored)).trans_le shrinks.nextToken
  listed present := (sound.listed (shrinks.listed present)).trans_le shrinks.nextToken
  given present := (sound.given (fewer _ present)).trans_le shrinks.nextToken
  owned present ofHeld := sound.owned (shrinks.listed present) (fewer _ ofHeld)
  kept present current :=
    shrinks.kept (sound.kept (fewer _ present) current) (spared _ present current)
  apart stored other := sound.apart (shrinks.stored stored) (shrinks.stored other)

/-- Placing a lock that no unexpired lock of another owner is in the way of. The other stored
locks were stored before and have other tokens. -/
theorem Sound.place (placed : ByteRangeLock)
    (stored : ∀ {file lock}, lock ∈ next.getFileLocks file →
      file = placed.fileId ∧ lock = placed ∨
        lock ∈ tenancy.manager.getFileLocks file ∧ lock.token ≠ placed.token)
    (inner : placed.offset ≠ u64Max)
    (later : tenancy.manager.nextToken.toNat ≤ next.nextToken.toNat)
    (issued : placed.token.value.toNat < next.nextToken.toNat)
    (clear : ∀ other ∈ tenancy.manager.getFileLocks placed.fileId,
      other.owner ≠ placed.owner → placed.isExpired tenancy.now = false →
      other.isExpired tenancy.now = false → placed.mode = .exclusive ∨ other.mode = .exclusive →
        other.overlaps placed.offset placed.length = false)
    (listed : ∀ {owner token}, token ∈ next.tokensOf owner →
      token.value.toNat < next.nextToken.toNat)
    (given : ∀ {lock}, lock ∈ held → lock.token.value.toNat < next.nextToken.toNat)
    (owned : ∀ {owner lock}, lock.token ∈ next.tokensOf owner → lock ∈ held → lock.owner = owner)
    (kept : ∀ {lock}, lock ∈ held → lock.isExpired tenancy.now = false →
      lock ∈ next.getFileLocks lock.fileId) :
    Sound { tenancy with manager := next, held := held } := by
  refine ⟨?_, ?_, ?_, ?_, listed, given, owned, kept, ?_⟩
  case refine_1 =>
    intro file lock present
    rcases stored present with ⟨rfl, rfl⟩ | ⟨old, -⟩
    · rfl
    · exact sound.filed old
  case refine_2 =>
    intro file lock present
    rcases stored present with ⟨rfl, rfl⟩ | ⟨old, -⟩
    · exact inner
    · exact sound.inner old
  case refine_3 =>
    intro file first second query presentFirst presentSecond same
    rcases stored presentFirst with ⟨rfl, rfl⟩ | ⟨oldFirst, differsFirst⟩
    · rcases stored presentSecond with ⟨rfl, rfl⟩ | ⟨-, differsSecond⟩
      · rfl
      · exact absurd same.symm differsSecond
    · rcases stored presentSecond with ⟨rfl, rfl⟩ | ⟨oldSecond, -⟩
      · exact absurd same differsFirst
      · exact sound.named oldFirst oldSecond same
  case refine_4 =>
    intro file lock present
    rcases stored present with ⟨rfl, rfl⟩ | ⟨old, -⟩
    · exact issued
    · exact (sound.issued old).trans_le later
  case refine_5 =>
    intro file first second presentFirst presentSecond owners currentFirst currentSecond exclusive
    rcases stored presentFirst with ⟨rfl, rfl⟩ | ⟨oldFirst, -⟩
    · rcases stored presentSecond with ⟨-, rfl⟩ | ⟨oldSecond, -⟩
      · exact absurd rfl owners
      · rw [overlaps_comm]
        exact clear second oldSecond owners.symm currentFirst currentSecond (.inl exclusive)
    · rcases stored presentSecond with ⟨rfl, rfl⟩ | ⟨oldSecond, -⟩
      · exact clear first oldFirst owners currentSecond currentFirst (.inr exclusive)
      · exact sound.apart oldFirst oldSecond owners currentFirst currentSecond exclusive

/-- Granting a lock that conflicts with no unexpired lock. -/
theorem Sound.grant (lock : ByteRangeLock) (inner : lock.offset ≠ u64Max)
    (fresh : lock.token = ⟨tenancy.manager.nextToken⟩)
    (separate : ∀ stored ∈ tenancy.manager.getFileLocks lock.fileId,
      stored.offset = lock.offset → stored.isExpired tenancy.now = false →
        stored.mode = .exclusive ∨ lock.mode = .exclusive)
    (clear : ∀ stored ∈ tenancy.manager.getFileLocks lock.fileId,
      stored.isExpired tenancy.now = false →
        stored.conflictsWith lock.offset lock.length lock.mode = false)
    (puts : InMemoryLockManager.Puts lock.fileId lock tenancy.manager next)
    (tokens : ∀ owner token, token ∈ next.tokensOf owner →
      token ∈ tenancy.manager.tokensOf owner ∨ owner = lock.owner ∧ token = lock.token)
    (counted : next.nextToken.toNat = tenancy.manager.nextToken.toNat + 1) :
    Sound { tenancy with manager := next, held := lock :: tenancy.held } := by
  have last : lock.token.value.toNat = tenancy.manager.nextToken.toNat := by rw [fresh]
  have issued : lock.token.value.toNat < next.nextToken.toNat := by omega
  have later : tenancy.manager.nextToken.toNat ≤ next.nextToken.toNat := by omega
  have unused {token : LockToken}
      (used : token.value.toNat < tenancy.manager.nextToken.toNat) : token ≠ lock.token := by
    rintro rfl
    omega
  refine sound.place lock ?stored inner later issued ?clear ?listed ?given ?owned ?kept
  case stored =>
    intro file other present
    refine ((puts file other).mp present).imp_right ?_
    rintro ⟨old, -⟩
    exact ⟨old, unused (sound.issued old)⟩
  case clear =>
    intro other stored _ _ current exclusive
    have passed := clear other stored current
    rwa [conflictsWith_of_exclusive exclusive.symm] at passed
  case listed =>
    intro owner token present
    rcases tokens owner token present with old | ⟨-, rfl⟩
    · exact (sound.listed old).trans_le later
    · exact issued
  case given =>
    intro other present
    rcases mem_cons.mp present with rfl | old
    · exact issued
    · exact (sound.given old).trans_le later
  case owned =>
    intro owner other present ofHeld
    rcases tokens owner other.token present with old | ⟨rfl, same⟩
    · rcases mem_cons.mp ofHeld with rfl | before
      · exact absurd rfl (unused (sound.listed old))
      · exact sound.owned old before
    · rcases mem_cons.mp ofHeld with rfl | before
      · rfl
      · exact absurd same (unused (sound.given before))
  case kept =>
    intro other ofHeld current
    rcases mem_cons.mp ofHeld with rfl | before
    · exact (puts _ _).mpr (.inl ⟨rfl, rfl⟩)
    · have stored := sound.kept before current
      refine (puts _ _).mpr (.inr ⟨stored, ?_⟩)
      -- A lock at the same offset would have been a conflict.
      rintro ⟨file, offset⟩
      rw [file] at stored
      have clash := clear other stored current
      have overlap := overlaps_of_covers (sound.inner stored) inner
        other.covers_offset (offset ▸ lock.covers_offset)
      rw [conflictsWith_of_exclusive (separate other stored offset current), overlap] at clash
      exact Bool.false_ne_true clash.symm

/-- Changing the mode of a stored lock, where no unexpired lock of another owner is in the way
of an exclusive one. -/
theorem Sound.setsMode {token : LockToken} {mode : LockMode} {file : FileId} {lock : ByteRangeLock}
    (sets : InMemoryLockManager.SetsMode tenancy.manager next token mode file lock)
    (clear : mode = .exclusive → lock.mode = .exclusive ∨
      ∀ other ∈ tenancy.manager.getFileLocks file, other.isExpired tenancy.now = false →
        other.owner ≠ lock.owner → other.overlaps lock.offset lock.length = false) :
    Sound { tenancy with manager := next, held := tenancy.held.map (.inMode token mode) } := by
  have tokens (owner : ClientId) : next.tokensOf owner = tenancy.manager.tokensOf owner := by
    rw [tokensOf, sets.ownerIndex, tokensOf]
  obtain rfl : lock.fileId = file := sound.filed sets.stored
  have inner := sound.inner sets.stored
  have issued : lock.token.value.toNat < next.nextToken.toNat :=
    sets.nextToken ▸ sound.issued sets.stored
  refine sound.place { lock with mode := mode } ?stored inner
    (sets.nextToken ▸ le_rfl) issued ?clear ?listed ?given ?owned ?kept
  case stored =>
    intro query other present
    refine ((sets.puts query other).mp present).imp_right ?_
    rintro ⟨old, elsewhere⟩
    refine ⟨old, fun same => elsewhere ?_⟩
    obtain rfl := sound.named old sets.stored same
    exact ⟨(sound.filed old).symm, rfl⟩
  case clear =>
    intro other old owners currentLock current exclusive
    rcases exclusive with exclusive | exclusive
    · rcases clear exclusive with already | free
      · have passed := sound.apart sets.stored old owners.symm currentLock current already
        rwa [overlaps_comm] at passed
      · exact free other old current owners
    · have passed := sound.apart old sets.stored owners current currentLock exclusive
      exact passed
  case listed =>
    intro owner listed present
    rw [sets.nextToken]
    exact sound.listed (tokens owner ▸ present)
  case given =>
    intro other present
    obtain ⟨held, ofHeld, rfl⟩ := mem_map.mp present
    rw [sets.nextToken, token_inMode]
    exact sound.given ofHeld
  case owned =>
    intro owner other present changed
    obtain ⟨held, ofHeld, rfl⟩ := mem_map.mp changed
    rw [token_inMode, tokens] at present
    rw [owner_inMode]
    exact sound.owned present ofHeld
  case kept =>
    intro other present current
    obtain ⟨held, ofHeld, rfl⟩ := mem_map.mp present
    rw [isExpired_inMode] at current
    have stored := sound.kept ofHeld current
    rw [fileId_inMode]
    refine (sets.puts _ _).mpr ?_
    by_cases changed : held.token = token
    · obtain rfl := sound.named stored sets.stored (changed.trans sets.token.symm)
      exact .inl ⟨rfl, if_pos changed⟩
    · rw [ByteRangeLock.inMode, if_neg changed]
      refine .inr ⟨stored, ?_⟩
      rintro ⟨here, offset⟩
      rw [here] at stored
      obtain rfl := eq_of_offset_eq stored sets.stored offset
      exact changed sets.token

theorem Sound.serve {operation : LockOperation} (separate : tenancy.Separate ⟨0, operation⟩) :
    (tenancy.serve operation).Sound := by
  cases operation with
  | acquire lock =>
    obtain ⟨inner, room, distinct⟩ := separate
    rcases tenancy.manager.acquire_cases tenancy.now lock room with
      ⟨conflict, next, acquired, shrinks⟩ | ⟨next, acquired, clear, puts, tokens, counted⟩
    · simp only [Tenancy.serve, acquired]
      exact sound.shrinks shrinks (fun _ present => present) (fun _ _ _ => id)
    · simp only [Tenancy.serve, acquired]
      exact sound.grant { lock with token := ⟨tenancy.manager.nextToken⟩ } inner rfl distinct
        clear puts tokens counted
  | release token =>
    rcases tenancy.manager.release_cases token with released | ⟨next, released, shrinks⟩
    · simp only [Tenancy.serve, released]
      exact sound
    · simp only [Tenancy.serve, released]
      refine sound.shrinks shrinks (fun _ present => mem_of_mem_filter present) ?_
      intro lock present _
      exact of_decide_eq_true (mem_filter.mp present).2
  | upgrade token =>
    rcases tenancy.manager.upgrade_cases tenancy.now token with
      ⟨failure, upgraded⟩ | ⟨file, lock, next, upgraded, sets, clear⟩
    · simp only [Tenancy.serve, upgraded]
      exact sound
    · simp only [Tenancy.serve, upgraded]
      exact sound.setsMode sets fun _ => clear
  | downgrade token =>
    rcases tenancy.manager.downgrade_cases token with
      ⟨failure, downgraded⟩ | ⟨file, lock, next, downgraded, sets⟩
    · simp only [Tenancy.serve, downgraded]
      exact sound
    · simp only [Tenancy.serve, downgraded]
      exact sound.setsMode sets nofun
  | releaseAll owner =>
    refine sound.shrinks (tenancy.manager.releaseAll_shrinks owner)
      (fun _ present => mem_of_mem_filter present) ?_
    intro lock present _ listed
    obtain ⟨ofHeld, foreign⟩ := mem_filter.mp present
    exact of_decide_eq_true foreign (sound.owned listed ofHeld)
  | expireLocks =>
    refine sound.shrinks (tenancy.manager.expireLocks_shrinks tenancy.now)
      (fun _ present => present) ?_
    intro lock _ current
    exact Bool.eq_false_iff.mp current

theorem Sound.step {call : LockCall} (separate : tenancy.Separate call) :
    (tenancy.step call).Sound :=
  (sound.wait call.elapsed).serve separate

end

/-- Held locks exclude each other after every run in which no lock is requested at the largest
offset or in shared mode at the offset of an unexpired shared lock. -/
theorem locks_exclude {calls : List LockCall}
    (separate : Run.Guarded step Separate new calls) : (Run.after step new calls).Exclusive :=
  (Run.invariant Sound (fun _ _ sound met => sound.step met) sound_new separate).exclusive

/-- A request for a lock on file 7 that does not expire. -/
def request (owner : UInt64) (offset length : UInt64) (mode : LockMode) : LockCall where
  elapsed := 1
  operation := .acquire ⟨⟨0⟩, ⟨owner⟩, 7, offset, length, mode, 0, none⟩

/-- A shared lock at the start of the file, upgraded beside an exclusive one behind it. -/
theorem locks_exclude_upgraded :
    Run.Guarded step Separate new [request 1 0 100 .shared, request 2 200 0 .exclusive,
        ⟨1, .upgrade ⟨1⟩⟩] ∧
      (Run.after step new [request 1 0 100 .shared, request 2 200 0 .exclusive,
        ⟨1, .upgrade ⟨1⟩⟩]).Exclusive := by
  have separate : Run.Guarded step Separate new
      [request 1 0 100 .shared, request 2 200 0 .exclusive, ⟨1, .upgrade ⟨1⟩⟩] := by
    decide +kernel
  exact ⟨separate, locks_exclude separate⟩

/-- The shared locks of two clients start at one offset, and the second lock replaces the first
one, so that an exclusive lock is granted inside the first client's range. -/
theorem replaced_lock_overlapped :
    ¬ (Run.after step new [request 1 0 100 .shared, request 2 0 10 .shared,
      request 3 50 10 .exclusive]).Exclusive := by
  intro exclusive
  refine exclusive ⟨⟨1⟩, ⟨1⟩, 7, 0, 100, .shared, 0, none⟩ ?_
    ⟨⟨3⟩, ⟨3⟩, 7, 50, 10, .exclusive, 0, none⟩ ?_ rfl ?_ rfl rfl (.inr rfl) 50 ?_
  · decide +kernel
  · decide +kernel
  · decide
  · exact ⟨⟨by decide, .inr (by decide)⟩, ⟨by decide, .inr (by decide)⟩⟩

end Tenancy

end Warp.Gateway
