import Warp.Foundation.OrderedIndex
import Warp.Foundation.Table

/-! # Lock manager for protocol gateways

Byte-range locks of a file are kept by their start offsets, with an index from tokens to files
and one from owners to tokens. Each operation is described by what it does to the locks of
every file: it stores one lock in the place of its offset (`InMemoryLockManager.Puts`) or
only takes locks away (`InMemoryLockManager.Shrinks`).
-/

namespace Warp.Gateway

open List Option OrderedIndex Table

structure ClientId where
  value : UInt64
deriving DecidableEq

abbrev FileId := UInt64

inductive GatewayError where
  | lockConflict (message : String)
  | lockNotFound (message : String)
  | deadlock
  | delegationConflict (message : String)
  | recallFailed (message : String)
  | leaseExpired (message : String)
  | permissionDenied (message : String)
deriving DecidableEq

structure LockToken where
  value : UInt64
deriving DecidableEq

inductive LockMode where
  | shared
  | exclusive
deriving DecidableEq

def u64Max : UInt64 := 0xFFFFFFFFFFFFFFFF

def saturatingAdd (left right : UInt64) : UInt64 :=
  if left.toNat + right.toNat < 2 ^ 64 then left + right else u64Max

structure ByteRangeLock where
  token : LockToken
  owner : ClientId
  fileId : FileId
  offset : UInt64
  length : UInt64
  mode : LockMode
  acquiredAt : ℕ
  expires : Option ℕ
deriving DecidableEq

def rangeEnd (offset length : UInt64) : UInt64 :=
  if length = 0 then u64Max else saturatingAdd offset length

variable {lock : ByteRangeLock} {mode : LockMode} {state : FileLockState} {offset : UInt64}
  {byte : ℕ} {length : UInt64}

namespace ByteRangeLock

def isExpired (lock : ByteRangeLock) (now : ℕ) : Bool := lock.expires.any fun expiry => now > expiry

def overlaps (lock : ByteRangeLock) (offset length : UInt64) : Bool :=
  lock.offset < rangeEnd offset length && offset < rangeEnd lock.offset lock.length

def conflictsWith (lock : ByteRangeLock) (offset length : UInt64) (mode : LockMode) : Bool :=
  lock.overlaps offset length && !(lock.mode = .shared && mode = .shared)

def start (lock : ByteRangeLock) : ℕ := lock.offset.toNat

/-- The bytes of a lock's range. -/
def Covers (lock : ByteRangeLock) (byte : ℕ) : Prop :=
  lock.offset.toNat ≤ byte ∧ (lock.length = 0 ∨ byte < lock.offset.toNat + lock.length.toNat)

theorem overlaps_comm (first second : ByteRangeLock) :
    first.overlaps second.offset second.length = second.overlaps first.offset first.length :=
  Bool.and_comm _ _

theorem conflictsWith_of_exclusive (exclusive : lock.mode = .exclusive ∨ mode = .exclusive)
    (offset length : UInt64) :
    lock.conflictsWith offset length mode = lock.overlaps offset length := by
  rcases exclusive with exclusive | exclusive
  · simp [conflictsWith, exclusive]
  · simp [conflictsWith, exclusive]

theorem isExpired_mono {now later : ℕ} (before : now ≤ later)
    (current : lock.isExpired later = false) : lock.isExpired now = false := by
  unfold isExpired at *
  cases expiry : lock.expires with
  | none => rfl
  | some limit =>
    simp only [expiry, any_some, decide_eq_false_iff_not] at current ⊢
    omega

end ByteRangeLock

theorem lt_u64Max (inner : offset ≠ u64Max) : offset.toNat < 2 ^ 64 - 1 := by
  have bound := offset.toNat_lt
  have different : offset.toNat ≠ 2 ^ 64 - 1 := fun same => inner (UInt64.toNat_inj.mp same)
  omega

theorem lt_rangeEnd (inner : byte < 2 ^ 64 - 1)
    (covered : length = 0 ∨ byte < offset.toNat + length.toNat) :
    byte < (rangeEnd offset length).toNat := by
  unfold rangeEnd saturatingAdd
  split
  · exact inner
  · next positive =>
    have short := covered.resolve_left positive
    split
    · next fits => rwa [UInt64.toNat_add, Nat.mod_eq_of_lt fits]
    · exact inner

/-- Locks with a byte in common overlap, unless one of them starts at the largest offset. -/
theorem ByteRangeLock.overlaps_of_covers {first second : ByteRangeLock}
    (firstInner : first.offset ≠ u64Max) (secondInner : second.offset ≠ u64Max)
    (inFirst : first.Covers byte) (inSecond : second.Covers byte) :
    first.overlaps second.offset second.length = true := by
  have lowFirst := lt_u64Max firstInner
  have lowSecond := lt_u64Max secondInner
  have firstEnd : second.offset.toNat < (rangeEnd first.offset first.length).toNat :=
    lt_rangeEnd lowSecond (inFirst.2.imp_right (lt_of_le_of_lt inSecond.1))
  have secondEnd : first.offset.toNat < (rangeEnd second.offset second.length).toNat :=
    lt_rangeEnd lowFirst (inSecond.2.imp_right (lt_of_le_of_lt inFirst.1))
  simp only [overlaps, Bool.and_eq_true, decide_eq_true_eq, UInt64.lt_iff_toNat_lt]
  exact ⟨secondEnd, firstEnd⟩

theorem ByteRangeLock.covers_offset (lock : ByteRangeLock) : lock.Covers lock.offset.toNat := by
  refine ⟨le_rfl, ?_⟩
  by_cases toEnd : lock.length = 0
  · exact .inl toEnd
  · have positive : lock.length.toNat ≠ 0 := fun none => toEnd (UInt64.toNat_inj.mp none)
    exact .inr (by omega)

inductive LockError where
  | conflict (lock : ByteRangeLock)
  | notFound
  | deadlock
  | invalid (message : String)
deriving DecidableEq

structure FileLockState where
  locks : OrderedIndex ByteRangeLock.start

namespace FileLockState

def new : FileLockState := ⟨.empty⟩

/-- The first unexpired lock, not of the excluded owner, that conflicts with a request. -/
def findConflict (state : FileLockState) (now : ℕ) (offset length : UInt64) (mode : LockMode)
    (excludeOwner : Option ClientId) : Option ByteRangeLock :=
  state.locks.values.find? fun lock =>
    !lock.isExpired now && excludeOwner ≠ some lock.owner && lock.conflictsWith offset length mode

def findToken (state : FileLockState) (token : LockToken) : Option ByteRangeLock :=
  state.locks.values.find? (·.token = token)

def store (state : FileLockState) (lock : ByteRangeLock) : FileLockState :=
  ⟨state.locks.insert lock⟩

def retain (state : FileLockState) (keep : ByteRangeLock → Bool) : FileLockState :=
  ⟨state.locks.retain keep⟩

theorem findConflict_eq_none {now : ℕ} {excludeOwner : Option ClientId}
    (clear : state.findConflict now offset length mode excludeOwner = none)
    (stored : lock ∈ state.locks.values) (current : lock.isExpired now = false)
    (other : excludeOwner ≠ some lock.owner) :
    lock.conflictsWith offset length mode = false := by
  have passed := find?_eq_none.mp clear lock stored
  simpa [current, other] using passed

end FileLockState

structure InMemoryLockManager where
  fileLocks : Table FileId FileLockState
  tokenIndex : Table LockToken FileId
  ownerIndex : Table ClientId (List LockToken)
  nextToken : UInt64

namespace InMemoryLockManager

def new : InMemoryLockManager := ⟨∅, ∅, ∅, 1⟩

section
variable (manager : InMemoryLockManager)

def fileState (file : FileId) : FileLockState :=
  (manager.fileLocks.lookup file).getD .new

def getFileLocks (file : FileId) : List ByteRangeLock :=
  (manager.fileState file).locks.values

def tokensOf (owner : ClientId) : List LockToken :=
  (manager.ownerIndex.lookup owner).getD []

/-- Acquire a byte-range lock. A token is allocated also for a lock that is refused. -/
def acquire (now : ℕ) (request : ByteRangeLock) :
    Except LockError LockToken × InMemoryLockManager :=
  let token : LockToken := ⟨manager.nextToken⟩
  let lock := { request with token := token }
  let state := manager.fileState lock.fileId
  match state.findConflict now lock.offset lock.length lock.mode none with
  | some conflict =>
    (.error (.conflict conflict), { manager with
      fileLocks := manager.fileLocks.insert lock.fileId state
      nextToken := manager.nextToken + 1 })
  | none =>
    (.ok token, {
      fileLocks := manager.fileLocks.insert lock.fileId (state.store lock)
      tokenIndex := manager.tokenIndex.insert token lock.fileId
      ownerIndex := manager.ownerIndex.insert lock.owner (manager.tokensOf lock.owner ++ [token])
      nextToken := manager.nextToken + 1 })

def release (token : LockToken) : Except LockError Unit × InMemoryLockManager :=
  match manager.tokenIndex.lookup token with
  | none => (.error .notFound, manager)
  | some file =>
    (.ok (), { manager with
      tokenIndex := manager.tokenIndex.erase token
      fileLocks := match manager.fileLocks.lookup file with
        | some state => manager.fileLocks.insert file (state.retain (·.token ≠ token))
        | none => manager.fileLocks
      ownerIndex := manager.ownerIndex.mapValues fun tokens => tokens.filter (· ≠ token) })

def upgrade (now : ℕ) (token : LockToken) : Except LockError LockToken × InMemoryLockManager :=
  match manager.tokenIndex.lookup token with
  | none => (.error .notFound, manager)
  | some file =>
    match manager.fileLocks.lookup file with
    | none => (.error .notFound, manager)
    | some state =>
      match state.findToken token with
      | none => (.error .notFound, manager)
      | some lock =>
        if lock.mode = .exclusive then (.ok token, manager)
        else
          match state.findConflict now lock.offset lock.length .exclusive
              (some lock.owner) with
          | some conflict => (.error (.conflict conflict), manager)
          | none => (.ok token, { manager with
              fileLocks := manager.fileLocks.insert file
                (state.store { lock with mode := .exclusive }) })

def downgrade (token : LockToken) : Except LockError LockToken × InMemoryLockManager :=
  match manager.tokenIndex.lookup token with
  | none => (.error .notFound, manager)
  | some file =>
    match manager.fileLocks.lookup file with
    | none => (.error .notFound, manager)
    | some state =>
      match state.findToken token with
      | none => (.error .notFound, manager)
      | some lock => (.ok token, { manager with
          fileLocks := manager.fileLocks.insert file (state.store { lock with mode := .shared }) })

/-- Release all locks held by a client. The number of its tokens is returned. -/
def releaseAll (owner : ClientId) : ℕ × InMemoryLockManager :=
  let tokens := manager.tokensOf owner
  (tokens.length, tokens.foldl (fun manager token => (manager.release token).2)
    { manager with ownerIndex := manager.ownerIndex.erase owner })

def expireLocks (now : ℕ) : ℕ × InMemoryLockManager :=
  let fileLocks := manager.fileLocks.mapValues (·.retain fun lock => !lock.isExpired now)
  let count := fun files : Table FileId FileLockState =>
    (files.values.map fun state => state.locks.values.length).sum
  (count manager.fileLocks - count fileLocks, { manager with
    fileLocks := fileLocks
    tokenIndex := manager.tokenIndex.filter fun token _ =>
      fileLocks.values.any fun state => state.locks.values.any (·.token = token) })

end

structure Shrinks (dropped : ByteRangeLock → Prop) (manager next : InMemoryLockManager) :
    Prop where
  stored : ∀ {file lock}, lock ∈ next.getFileLocks file → lock ∈ manager.getFileLocks file
  kept : ∀ {file lock}, lock ∈ manager.getFileLocks file → ¬ dropped lock →
    lock ∈ next.getFileLocks file
  listed : ∀ {owner token}, token ∈ next.tokensOf owner → token ∈ manager.tokensOf owner
  nextToken : manager.nextToken.toNat ≤ next.nextToken.toNat

/-- A lock of a file is stored in the place of its offset. -/
def Puts (file : FileId) (placed : ByteRangeLock) (manager next : InMemoryLockManager) : Prop :=
  ∀ query lock, lock ∈ next.getFileLocks query ↔
    query = file ∧ lock = placed ∨
      lock ∈ manager.getFileLocks query ∧ ¬ (query = file ∧ lock.offset = placed.offset)

variable {manager next : InMemoryLockManager} {manager : InMemoryLockManager} {file : FileId}
  {placed : ByteRangeLock} {token : LockToken}

theorem eq_of_offset_eq {first second : ByteRangeLock} (left : first ∈ manager.getFileLocks file)
    (right : second ∈ manager.getFileLocks file) (same : first.offset = second.offset) :
    first = second :=
  eq_of_key_eq left right (congrArg UInt64.toNat same)

theorem fileState_of_insert (inserted : next.fileLocks = manager.fileLocks.insert file state)
    (query : FileId) :
    next.fileState query = if query = file then state else manager.fileState query := by
  rw [fileState, inserted, lookup_insert_eq]
  split
  · rfl
  · rfl

theorem fileState_of_lookup (found : manager.fileLocks.lookup file = some state) :
    manager.fileState file = state := by
  rw [fileState, found, getD_some]

theorem getFileLocks_of_insert_self
    (inserted : next.fileLocks = manager.fileLocks.insert file (manager.fileState file))
    (query : FileId) : next.getFileLocks query = manager.getFileLocks query := by
  rw [getFileLocks, fileState_of_insert inserted]
  split
  · next here => rw [here, getFileLocks]
  · rfl

theorem puts_of_insert
    (inserted : next.fileLocks =
      manager.fileLocks.insert file ((manager.fileState file).store placed)) :
    Puts file placed manager next := by
  intro query lock
  rw [getFileLocks, fileState_of_insert inserted, getFileLocks]
  split
  · next here =>
    subst here
    rw [FileLockState.store, mem_insert]
    simp only [true_and, ne_eq, ByteRangeLock.start, UInt64.toNat_inj]
  · next elsewhere => simp only [elsewhere, false_and, false_or, not_false_eq_true, and_true]

theorem puts_self (stored : placed ∈ manager.getFileLocks file) :
    Puts file placed manager manager := by
  intro query lock
  constructor
  · intro present
    by_cases here : query = file ∧ lock.offset = placed.offset
    · obtain ⟨rfl, same⟩ := here
      exact .inl ⟨rfl, eq_of_offset_eq present stored same⟩
    · exact .inr ⟨present, here⟩
  · rintro (⟨rfl, rfl⟩ | ⟨present, -⟩)
    · exact stored
    · exact present

theorem Shrinks.refl (dropped : ByteRangeLock → Prop) (manager : InMemoryLockManager) :
    Shrinks dropped manager manager :=
  ⟨id, fun stored _ => stored, id, le_rfl⟩

theorem Shrinks.trans {dropped : ByteRangeLock → Prop} {first second third : InMemoryLockManager}
    (left : Shrinks dropped first second) (right : Shrinks dropped second third) :
    Shrinks dropped first third where
  stored present := left.stored (right.stored present)
  kept stored spared := right.kept (left.kept stored spared) spared
  listed present := left.listed (right.listed present)
  nextToken := left.nextToken.trans right.nextToken

theorem Shrinks.mono {dropped more : ByteRangeLock → Prop}
    (weaker : ∀ lock, dropped lock → more lock) (shrinks : Shrinks dropped manager next) :
    Shrinks more manager next :=
  { shrinks with kept := fun stored spared => shrinks.kept stored (mt (weaker _) spared) }

/-- What acquiring does: a conflict changes no locks, and otherwise the lock is stored and its
token listed for the owner. -/
theorem acquire_cases (manager : InMemoryLockManager) (now : ℕ) (request : ByteRangeLock)
    (room : manager.nextToken ≠ u64Max) :
    (∃ conflict next, manager.acquire now request = (.error (.conflict conflict), next) ∧
      Shrinks (fun _ => False) manager next) ∨
    ∃ next, manager.acquire now request = (.ok ⟨manager.nextToken⟩, next) ∧
      (∀ stored ∈ manager.getFileLocks request.fileId, stored.isExpired now = false →
        stored.conflictsWith request.offset request.length request.mode = false) ∧
      Puts request.fileId { request with token := ⟨manager.nextToken⟩ } manager next ∧
      (∀ owner token, token ∈ next.tokensOf owner →
        token ∈ manager.tokensOf owner ∨ owner = request.owner ∧ token = ⟨manager.nextToken⟩) ∧
      next.nextToken.toNat = manager.nextToken.toNat + 1 := by
  have low := lt_u64Max room
  have counted : (manager.nextToken + 1).toNat = manager.nextToken.toNat + 1 := by
    rw [UInt64.toNat_add]
    exact Nat.mod_eq_of_lt (by change _ + 1 < _; omega)
  unfold acquire
  dsimp only
  split
  · next conflict _ =>
    refine .inl ⟨conflict, _, rfl, ?_, ?_, id, by dsimp only; omega⟩
    · intro file lock present
      rwa [getFileLocks_of_insert_self rfl] at present
    · intro file lock present _
      rwa [getFileLocks_of_insert_self rfl]
  · next found =>
    refine .inr ⟨_, rfl, ?_, puts_of_insert rfl, ?_, counted⟩
    · intro stored present current
      exact FileLockState.findConflict_eq_none found present current nofun
    · intro owner token listed
      rw [tokensOf, lookup_insert_eq] at listed
      split at listed
      · next here =>
        rw [getD_some, ← here] at listed
        rcases mem_append.mp listed with old | added
        · exact .inl old
        · exact .inr ⟨here, mem_singleton.mp added⟩
      · exact .inl listed

theorem mem_getFileLocks_release (found : manager.tokenIndex.lookup token = some file)
    {query : FileId} :
    lock ∈ (manager.release token).2.getFileLocks query ↔
      lock ∈ manager.getFileLocks query ∧ ¬ (query = file ∧ lock.token = token) := by
  rcases known : manager.fileLocks.lookup file with _ | state
  · have same : (manager.release token).2.fileLocks = manager.fileLocks := by
      simp only [release, found, known]
    simp only [getFileLocks, fileState, same]
    refine (and_iff_left_of_imp ?_).symm
    rintro present ⟨rfl, -⟩
    rw [known] at present
    exact absurd present not_mem_nil
  · have inserted : (manager.release token).2.fileLocks =
        manager.fileLocks.insert file (state.retain (·.token ≠ token)) := by
      simp only [release, found, known]
    simp only [getFileLocks, fileState_of_insert inserted]
    split
    · next here =>
      rw [here, fileState_of_lookup known, FileLockState.retain, mem_retain]
      simp
    · next elsewhere => simp [elsewhere]

section
variable (manager : InMemoryLockManager)

theorem release_shrinks (token : LockToken) :
    Shrinks (·.token = token) manager (manager.release token).2 := by
  rcases found : manager.tokenIndex.lookup token with _ | file
  · simp only [release, found]
    exact .refl _ manager
  · refine ⟨?_, ?_, ?_, ?_⟩
    · intro query lock present
      exact ((mem_getFileLocks_release found).mp present).1
    · intro query lock present spared
      exact (mem_getFileLocks_release found).mpr ⟨present, fun both => spared both.2⟩
    · intro owner listed present
      simp only [release, found, tokensOf, lookup_mapValues] at present
      unfold tokensOf
      cases known : manager.ownerIndex.lookup owner with
      | none =>
        rw [known] at present
        exact absurd present not_mem_nil
      | some tokens =>
        rw [known] at present
        exact mem_of_mem_filter present
    · simp only [release, found, le_refl]

theorem release_cases (token : LockToken) :
    manager.release token = (.error .notFound, manager) ∨
    ∃ next, manager.release token = (.ok (), next) ∧ Shrinks (·.token = token) manager next := by
  have shrinks := manager.release_shrinks token
  rcases found : manager.tokenIndex.lookup token with _ | file
  · exact .inl (by simp only [release, found])
  · exact .inr ⟨_, by simp only [release, found], shrinks⟩

theorem foldl_release_shrinks (tokens : List LockToken) :
    Shrinks (·.token ∈ tokens) manager
      (tokens.foldl (fun manager token => (manager.release token).2) manager) := by
  induction tokens generalizing manager with
  | nil => exact .refl _ manager
  | cons token rest ih =>
    refine Shrinks.trans ((manager.release_shrinks token).mono ?_) ((ih _).mono ?_)
    · intro lock same
      exact mem_cons.mpr (.inl same)
    · intro lock listed
      exact mem_cons_of_mem token listed

theorem releaseAll_shrinks (owner : ClientId) :
    Shrinks (·.token ∈ manager.tokensOf owner) manager (manager.releaseAll owner).2 := by
  refine Shrinks.trans ?_ (foldl_release_shrinks
    { manager with ownerIndex := manager.ownerIndex.erase owner } (manager.tokensOf owner))
  refine ⟨id, fun stored _ => stored, ?_, le_rfl⟩
  intro client token listed
  rw [tokensOf, lookup_erase_eq] at listed
  split at listed
  · exact absurd listed not_mem_nil
  · exact listed

theorem expireLocks_shrinks (now : ℕ) :
    Shrinks (·.isExpired now = true) manager (manager.expireLocks now).2 := by
  have locks (file : FileId) (lock : ByteRangeLock) :
      lock ∈ (manager.expireLocks now).2.getFileLocks file ↔
        lock ∈ manager.getFileLocks file ∧ lock.isExpired now = false := by
    simp only [expireLocks, getFileLocks, fileState, lookup_mapValues]
    cases manager.fileLocks.lookup file with
    | none => exact iff_of_false not_mem_nil fun both => not_mem_nil both.1
    | some state =>
      rw [map_some, getD_some, FileLockState.retain, mem_retain, Bool.not_eq_true', getD_some]
  refine ⟨?_, ?_, id, le_rfl⟩
  · intro file lock present
    exact ((locks file lock).mp present).1
  · intro file lock present current
    exact (locks file lock).mpr ⟨present, Bool.eq_false_iff.mpr current⟩

end

theorem findToken_eq_some (known : manager.fileLocks.lookup file = some state)
    (found : state.findToken token = some lock) :
    lock ∈ manager.getFileLocks file ∧ lock.token = token := by
  refine ⟨?_, of_decide_eq_true (find?_some (p := fun lock : ByteRangeLock =>
    lock.token = token) found)⟩
  rw [getFileLocks, fileState_of_lookup known]
  exact mem_of_find?_eq_some found

structure SetsMode (manager next : InMemoryLockManager) (token : LockToken) (mode : LockMode)
    (file : FileId) (lock : ByteRangeLock) : Prop where
  stored : lock ∈ manager.getFileLocks file
  token : lock.token = token
  puts : Puts file { lock with mode := mode } manager next
  ownerIndex : next.ownerIndex = manager.ownerIndex
  nextToken : next.nextToken = manager.nextToken

theorem setsMode_store (mode : LockMode) (known : manager.fileLocks.lookup file = some state)
    (found : state.findToken token = some lock) :
    SetsMode manager { manager with
      fileLocks := manager.fileLocks.insert file (state.store { lock with mode := mode }) }
      token mode file lock := by
  obtain ⟨stored, named⟩ := findToken_eq_some known found
  exact ⟨stored, named, puts_of_insert (by rw [fileState_of_lookup known]), rfl, rfl⟩

/-- What upgrading does: nothing if it fails, and otherwise the lock is exclusive, which it was
before or no unexpired lock of another owner overlaps it. -/
theorem upgrade_cases (manager : InMemoryLockManager) (now : ℕ) (token : LockToken) :
    (∃ failure, manager.upgrade now token = (.error failure, manager)) ∨
    ∃ file lock next, manager.upgrade now token = (.ok token, next) ∧
      SetsMode manager next token .exclusive file lock ∧
      (lock.mode = .exclusive ∨ ∀ other ∈ manager.getFileLocks file,
        other.isExpired now = false → other.owner ≠ lock.owner →
          other.overlaps lock.offset lock.length = false) := by
  unfold upgrade
  split
  · exact .inl ⟨.notFound, rfl⟩
  · next file _ =>
    split
    · exact .inl ⟨.notFound, rfl⟩
    · next state known =>
      split
      · exact .inl ⟨.notFound, rfl⟩
      · next lock found =>
        split
        · next already =>
          obtain ⟨stored, named⟩ := findToken_eq_some known found
          have same : { lock with mode := .exclusive } = lock := by rw [← already]
          exact .inr ⟨file, lock, manager, rfl,
            ⟨stored, named, same.symm ▸ puts_self stored, rfl, rfl⟩, .inl already⟩
        · split
          · next conflict _ => exact .inl ⟨.conflict conflict, rfl⟩
          · next clear =>
            refine .inr ⟨file, lock, _, rfl, setsMode_store .exclusive known found, .inr ?_⟩
            intro other present current foreign
            rw [getFileLocks, fileState_of_lookup known] at present
            have passed := FileLockState.findConflict_eq_none clear present current
              (fun same => foreign (Option.some.inj same).symm)
            rwa [ByteRangeLock.conflictsWith_of_exclusive (.inr rfl)] at passed

theorem downgrade_cases (manager : InMemoryLockManager) (token : LockToken) :
    (∃ failure, manager.downgrade token = (.error failure, manager)) ∨
    ∃ file lock next, manager.downgrade token = (.ok token, next) ∧
      SetsMode manager next token .shared file lock := by
  unfold downgrade
  split
  · exact .inl ⟨.notFound, rfl⟩
  · split
    · exact .inl ⟨.notFound, rfl⟩
    · next state known =>
      split
      · exact .inl ⟨.notFound, rfl⟩
      · next lock found => exact .inr ⟨_, lock, _, rfl, setsMode_store .shared known found⟩

end InMemoryLockManager

end Warp.Gateway
