import Warp.Gateway.Lease

/-! # Conflicts between leases

A lease with write caching yields to the leases it shares a file with: none of them has write
caching, and its break is pending if one of them has read caching. Requests that see every
lease they may conflict with keep it that way (`Orderly.step`).
-/

namespace Warp.Gateway

open List Table
open Bool (eq_false_iff or_eq_true)
open LeaseState (conflictsWith conflictsWith_comm conflictsWith_of_hasWrite hasRead_combine hasWrite_none write)

namespace Lease

/-- Two leases list a file in common. -/
def Shares (first second : Lease) : Prop := ∃ file ∈ first.files, file ∈ second.files
  deriving Decidable

/-- Write caching of one lease beside another one. -/
def Yields (first second : Lease) : Prop :=
  first.state.hasWrite = true →
    second.state.hasWrite = false ∧ (second.state.hasRead = true → first.breakPending = true)

@[simp] theorem state_meet (requested : LeaseState) (lease : Lease) :
    (lease.meet requested).state = lease.state := by
  unfold meet
  split <;> rfl

@[simp] theorem files_meet (requested : LeaseState) (lease : Lease) :
    (lease.meet requested).files = lease.files := by
  unfold meet
  split <;> rfl

theorem meet_meet (requested : LeaseState) (lease : Lease) :
    (lease.meet requested).meet requested = lease.meet requested := by
  unfold meet
  split
  · next conflict =>
    change (if lease.state.conflictsWith requested = true then _ else _) = _
    rw [if_pos conflict]
    rfl
  · rfl

variable {requested : LeaseState}

theorem meet_of_not_conflict {lease : Lease} (clear : lease.state.conflictsWith requested = false) :
    lease.meet requested = lease :=
  if_neg (eq_false_iff.mp clear)

theorem breakPending_meet {lease : Lease} (conflict : lease.state.conflictsWith requested = true) :
    (lease.meet requested).breakPending = true := by
  rw [meet, if_pos conflict]
  rfl

theorem breakPending_meet_of_pending {lease : Lease} (pending : lease.breakPending = true) :
    (lease.meet requested).breakPending = true := by
  unfold meet
  split
  · rfl
  · exact pending

/-- Leases that yield to each other conflict only while a break is pending. -/
theorem conflictsWith_eq_false {first second : Lease} (forth : first.Yields second)
    (back : second.Yields first) (settled : first.breakPending = false)
    (otherSettled : second.breakPending = false) :
    first.state.conflictsWith second.state = false := by
  have silent {left right : Lease} (yields : left.Yields right)
      (calm : left.breakPending = false) (writes : left.state.hasWrite = true) :
      left.state.conflictsWith right.state = false := by
    obtain ⟨noWrite, pending⟩ := yields writes
    have noRead : right.state.hasRead = false := by
      refine eq_false_iff.mpr fun reads => ?_
      exact Bool.false_ne_true (calm.symm.trans (pending reads))
    rw [conflictsWith_of_hasWrite writes, noRead, noWrite, Bool.false_or]
  cases writes : first.state.hasWrite with
  | true => exact silent forth settled writes
  | false =>
    cases otherWrites : second.state.hasWrite with
    | true =>
      rw [conflictsWith_comm]
      exact silent back otherSettled otherWrites
    | false => simp [conflictsWith, writes, otherWrites]

theorem mem_files_foldl_addFile (files : List FileId) (lease : Lease) (file : FileId) :
    file ∈ (files.foldl addFile lease).files ↔ file ∈ lease.files ∨ file ∈ files := by
  induction files generalizing lease with
  | nil => simp
  | cons added rest ih =>
    rw [foldl_cons, ih, mem_cons]
    unfold addFile
    split
    · next present =>
      have listed : added ∈ lease.files := contains_iff_mem.mp present
      constructor
      · exact fun either => either.imp_right .inr
      · rintro (old | rfl | later)
        · exact .inl old
        · exact .inl listed
        · exact .inr later
    · rw [mem_append, mem_singleton, or_assoc]

theorem foldl_addFile_eq (files : List FileId) (lease : Lease) :
    ∃ listed, files.foldl addFile lease = { lease with files := listed } := by
  induction files generalizing lease with
  | nil => exact ⟨lease.files, rfl⟩
  | cons added rest ih =>
    obtain ⟨listed, same⟩ := ih (lease.addFile added)
    refine ⟨listed, ?_⟩
    rw [foldl_cons, same]
    unfold addFile
    split
    · rfl
    · rfl

variable (lease : Lease) (granted : LeaseState) (files : List FileId) (duration now : ℕ)

theorem mem_files_widen (file : FileId) :
    file ∈ (lease.widen granted files duration now).files ↔ file ∈ lease.files ∨ file ∈ files :=
  mem_files_foldl_addFile files _ file

theorem exists_widen_eq :
    ∃ listed, lease.widen granted files duration now =
      { renew { lease with state := lease.state.combine granted } duration now with
        files := listed } :=
  foldl_addFile_eq files _

theorem state_widen :
    (lease.widen granted files duration now).state = lease.state.combine granted := by
  obtain ⟨listed, same⟩ := lease.exists_widen_eq granted files duration now
  rw [same]
  rfl

theorem breakPending_widen :
    (lease.widen granted files duration now).breakPending = lease.breakPending := by
  obtain ⟨listed, same⟩ := lease.exists_widen_eq granted files duration now
  rw [same]
  rfl

theorem breakTo_widen : (lease.widen granted files duration now).breakTo = lease.breakTo := by
  obtain ⟨listed, same⟩ := lease.exists_widen_eq granted files duration now
  rw [same]
  rfl

end Lease

open Lease (meet state_widen)

variable {other : LeaseKey} {old : Lease}

namespace LeaseManager

variable (key : LeaseKey) (requested : LeaseState)

theorem breakExisting_cases (current : LeaseState × Table LeaseKey Lease) (existing : LeaseKey) :
    (breakExisting key requested current existing = current ∧
      (existing ≠ key → ∀ lease, current.2.lookup existing = some lease →
        lease.state.conflictsWith requested = false)) ∨
    ∃ lease, existing ≠ key ∧ current.2.lookup existing = some lease ∧
      lease.state.conflictsWith requested = true ∧
      breakExisting key requested current existing =
        (current.1.without .write, current.2.insert existing (lease.meet requested)) := by
  unfold breakExisting
  split
  · next own => exact .inl ⟨rfl, fun foreign => absurd own foreign⟩
  · next foreign =>
    rcases found : current.2.lookup existing with _ | lease
    · exact .inl ⟨rfl, nofun⟩
    · by_cases conflict : lease.state.conflictsWith requested = true
      · refine .inr ⟨lease, foreign, rfl, conflict, ?_⟩
        simp only [conflict, if_true, meet]
      · refine .inl ⟨by simp [conflict], ?_⟩
        rintro - _ ⟨⟩
        exact eq_false_iff.mpr conflict

theorem lookup_breakExisting (current : LeaseState × Table LeaseKey Lease)
    (existing query : LeaseKey) :
    (breakExisting key requested current existing).2.lookup query =
      if query = existing ∧ query ≠ key then (current.2.lookup query).map (meet requested)
      else current.2.lookup query := by
  rcases breakExisting_cases key requested current existing with
    ⟨same, clear⟩ | ⟨lease, foreign, found, -, broken⟩
  · rw [same]
    split
    · next met =>
      obtain ⟨rfl, foreign⟩ := met
      cases found : current.2.lookup query with
      | none => rfl
      | some lease => rw [Option.map_some, Lease.meet_of_not_conflict (clear foreign lease found)]
    · rfl
  · rw [broken, lookup_insert_eq]
    by_cases here : query = existing
    · subst here
      rw [if_pos rfl, if_pos ⟨rfl, foreign⟩, found, Option.map_some]
    · rw [if_neg here, if_neg fun both => here both.1]

section
variable (keys : List LeaseKey) (current : LeaseState × Table LeaseKey Lease)
include keys current

theorem lookup_foldl_breakExisting (query : LeaseKey) :
    (keys.foldl (breakExisting key requested) current).2.lookup query =
      if query ∈ keys ∧ query ≠ key then (current.2.lookup query).map (meet requested)
      else current.2.lookup query := by
  induction keys generalizing current with
  | nil => simp
  | cons existing rest ih =>
    rw [foldl_cons, ih, lookup_breakExisting]
    have twice : meet requested ∘ meet requested = meet requested :=
      funext (Lease.meet_meet requested)
    by_cases own : query = key
    · simp [own]
    · by_cases here : query = existing
      · simp [here, here ▸ own, twice]
      · simp only [here, false_and, if_false, mem_cons, false_or]

theorem hasRead_foldl_breakExisting :
    (keys.foldl (breakExisting key requested) current).1.hasRead = current.1.hasRead := by
  induction keys generalizing current with
  | nil => rfl
  | cons existing rest ih =>
    rw [foldl_cons, ih]
    rcases breakExisting_cases key requested current existing with
      ⟨same, -⟩ | ⟨_, -, -, -, broken⟩
    · rw [same]
    · rw [broken, LeaseState.hasRead_without_write]

/-- Write caching is granted only if no lease that was met conflicts. -/
theorem hasWrite_foldl_breakExisting
    (granted : (keys.foldl (breakExisting key requested) current).1.hasWrite = true) :
    current.1.hasWrite = true ∧ ∀ met ∈ keys, met ≠ key → ∀ lease,
      current.2.lookup met = some lease → lease.state.conflictsWith requested = false := by
  induction keys generalizing current with
  | nil => exact ⟨granted, nofun⟩
  | cons existing rest ih =>
    obtain ⟨writes, clear⟩ := ih _ granted
    rcases breakExisting_cases key requested current existing with
      ⟨same, first⟩ | ⟨lease, -, -, -, broken⟩
    · rw [same] at writes clear
      exact ⟨writes, forall_mem_cons.mpr ⟨first, clear⟩⟩
    · rw [broken, LeaseState.hasWrite_without_write] at writes
      exact absurd writes Bool.false_ne_true

end

variable {key requested}

/-- The lease of a key, one without flags and files if there is none. -/
def leaseOf (manager : LeaseManager) (key : LeaseKey) : Lease :=
  (manager.leases.lookup key).getD (.new key ⟨0⟩ .none 0 0)

/-- The lease of the requested key after a request. -/
structure Widened (manager : LeaseManager) (key : LeaseKey) (state : LeaseState)
    (files : List FileId) (own : Lease) : Prop where
  lists : ∀ {file}, file ∈ own.files → file ∈ (manager.leaseOf key).files ∨ file ∈ files
  hasRead : own.state.hasRead = true →
    (manager.leaseOf key).state.hasRead = true ∨ state.hasRead = true
  keepsRead : (manager.leaseOf key).state.hasRead = true → own.state.hasRead = true
  hasWrite : own.state.hasWrite = true → (manager.leaseOf key).state.hasWrite = true ∨
    state.hasWrite = true ∧ ∀ met ∈ manager.metBy files, met ≠ key → ∀ lease,
      manager.leases.lookup met = some lease → lease.state.conflictsWith state = false
  breakPending : own.breakPending = (manager.leaseOf key).breakPending
  breakTo : own.breakTo = (manager.leaseOf key).breakTo

section
variable {manager : LeaseManager} {state granted : LeaseState} {files : List FileId}
  (reads : granted.hasRead = state.hasRead)
  (writes : granted.hasWrite = true → state.hasWrite = true ∧
    ∀ met ∈ manager.metBy files, met ≠ key → ∀ lease,
      manager.leases.lookup met = some lease → lease.state.conflictsWith state = false)
include reads writes

theorem widened_new (missing : manager.leases.lookup key = none) (client : ClientId) (now : ℕ) :
    manager.Widened key state files
      { Lease.new key client granted manager.leaseDuration now with files := files } := by
  have none : manager.leaseOf key = .new key ⟨0⟩ .none 0 0 := by rw [leaseOf, missing]; rfl
  constructor
  · exact .inr
  · intro read
    exact .inr (reads ▸ read)
  · rw [none]
    intro read
    change LeaseState.none.hasRead = true at read
    rw [LeaseState.hasRead_none] at read
    exact absurd read Bool.false_ne_true
  · intro write
    exact .inr (writes write)
  · rw [none]; rfl
  · rw [none]; rfl

theorem widened_widen {existing : Lease} (found : manager.leases.lookup key = some existing)
    (now : ℕ) :
    manager.Widened key state files (existing.widen granted files manager.leaseDuration now) := by
  have held : manager.leaseOf key = existing := by rw [leaseOf, found]; rfl
  constructor
  · intro file listed
    rw [held]
    exact (Lease.mem_files_widen _ _ _ _ _ file).mp listed
  · rw [state_widen, hasRead_combine, held, reads, or_eq_true]
    exact id
  · rw [state_widen, hasRead_combine, held, or_eq_true]
    exact .inl
  · rw [state_widen, LeaseState.hasWrite_combine, held, or_eq_true]
    exact Or.imp_right writes
  · rw [Lease.breakPending_widen, held]
  · rw [Lease.breakTo_widen, held]

end

/-- What a request does to the leases: the requested one is widened, and the other ones it
meets are broken where they conflict. -/
theorem lookup_request (manager : LeaseManager) (now : ℕ) (key : LeaseKey) (client : ClientId)
    (state : LeaseState) (files : List FileId) :
    ∃ own, manager.Widened key state files own ∧ ∀ query,
      (manager.request now key client state files).2.leases.lookup query =
        if query = key then some own
        else if query ∈ manager.metBy files then
          (manager.leases.lookup query).map (meet state)
        else manager.leases.lookup query := by
  have lookups := lookup_foldl_breakExisting key state (manager.metBy files) (state, manager.leases)
  have reads := hasRead_foldl_breakExisting key state (manager.metBy files) (state, manager.leases)
  have writes := hasWrite_foldl_breakExisting key state (manager.metBy files)
    (state, manager.leases)
  rcases result : (manager.metBy files).foldl (breakExisting key state) (state, manager.leases)
    with ⟨granted, leases⟩
  rw [result] at lookups reads writes
  have others (query : LeaseKey) (foreign : query ≠ key) : leases.lookup query =
      if query ∈ manager.metBy files then (manager.leases.lookup query).map (meet state)
      else manager.leases.lookup query := by
    simpa [foreign] using lookups query
  have same : leases.lookup key = manager.leases.lookup key := by
    simpa using lookups key
  rcases found : manager.leases.lookup key with _ | existing
  · refine ⟨_, widened_new reads writes found client now, fun query => ?_⟩
    rw [found] at same
    simp only [request, result, same, lookup_insert_eq]
    split
    · rfl
    · next foreign => exact others query foreign
  · refine ⟨_, widened_widen reads writes found now, fun query => ?_⟩
    rw [found] at same
    simp only [request, result, same, lookup_insert_eq]
    split
    · rfl
    · next foreign => exact others query foreign

structure Overtaken (manager : LeaseManager) (state : LeaseState) (files : List FileId)
    (other : LeaseKey) (old new : Lease) : Prop where
  found : manager.leases.lookup other = some old
  sameState : new.state = old.state
  sameFiles : new.files = old.files
  pending : old.breakPending = true → new.breakPending = true
  broken : other ∈ manager.metBy files → old.state.conflictsWith state = true →
    new.breakPending = true
  breakTo : new.breakTo = old.breakTo ∨
    new.breakTo.hasWrite = false ∧ new.breakTo.hasRead = old.state.hasRead

theorem overtaken_meet {manager : LeaseManager} {state : LeaseState} {files : List FileId}
    (found : manager.leases.lookup other = some old) :
    manager.Overtaken state files other old (old.meet state) where
  found := found
  sameState := old.state_meet state
  sameFiles := old.files_meet state
  pending := Lease.breakPending_meet_of_pending
  broken _ := Lease.breakPending_meet
  breakTo := by
    by_cases conflict : old.state.conflictsWith state = true
    · rw [meet, if_pos conflict]
      exact .inr ⟨LeaseState.hasWrite_breakTo conflict, LeaseState.hasRead_breakTo _ _⟩
    · rw [Lease.meet_of_not_conflict (eq_false_iff.mpr conflict)]
      exact .inl rfl

theorem request_cases (manager : LeaseManager) (now : ℕ) (key : LeaseKey) (client : ClientId)
    (state : LeaseState) (files : List FileId) :
    ∃ own, manager.Widened key state files own ∧ ∀ {query lease},
      (manager.request now key client state files).2.leases.lookup query = some lease →
        query = key ∧ lease = own ∨
          query ≠ key ∧ ∃ old, manager.Overtaken state files query old lease := by
  obtain ⟨own, widened, lookups⟩ := manager.lookup_request now key client state files
  refine ⟨own, widened, ?_⟩
  intro query lease stored
  rw [lookups] at stored
  split at stored
  · next here => exact .inl ⟨here, (Option.some.inj stored).symm⟩
  · next foreign =>
    refine .inr ⟨foreign, ?_⟩
    split at stored
    · obtain ⟨old, found, rfl⟩ := Option.map_eq_some_iff.mp stored
      exact ⟨old, overtaken_meet found⟩
    · next unmet =>
      exact ⟨lease, stored, rfl, rfl, id, fun met => absurd met unmet, .inl rfl⟩

end LeaseManager

open LeaseManager (acknowledgeBreak leaseOf renew step)

/-- What holds of the leases after every run of calls that see the leases they may conflict
with: breaking takes write caching away and adds nothing, and leases that share a file yield to
each other. -/
structure Orderly (leases : Table LeaseKey Lease) : Prop where
  weaker : ∀ {key lease}, leases.lookup key = some lease →
    lease.breakTo.hasWrite = false ∧ (lease.breakTo.hasRead = true → lease.state.hasRead = true)
  yields : ∀ {first second left right}, leases.lookup first = some left →
    leases.lookup second = some right → first ≠ second → left.Shares right → left.Yields right

namespace LeaseManager

/-- No two leases that list a file conflict if no break is pending. -/
def ConflictFree (manager : LeaseManager) : Prop :=
  (∀ {key lease}, manager.leases.lookup key = some lease → lease.breakPending = false) →
    ∀ {first second left right file}, manager.leases.lookup first = some left →
      manager.leases.lookup second = some right → first ≠ second →
      file ∈ left.files → file ∈ right.files → left.state.conflictsWith right.state = false

/-- A lease that conflicts with a requested state is indexed under a requested file if it lists
one of them or one of the files that the key's lease has already. -/
def Indexed (manager : LeaseManager) (key : LeaseKey) (state : LeaseState) (files : List FileId)
    (other : LeaseKey) (lease : Lease) : Prop :=
  lease.state.conflictsWith state = true →
    (∃ file ∈ lease.files, file ∈ files ∨ file ∈ (manager.leaseOf key).files) →
      other ∈ manager.metBy files
  deriving Decidable

/-- A lease that conflicts with the state of the key's lease and lists a requested file lists a
file of the key's lease already. -/
def Acquainted (manager : LeaseManager) (key : LeaseKey) (files : List FileId) (lease : Lease) :
    Prop :=
  lease.state.conflictsWith (manager.leaseOf key).state = true →
    (∃ file ∈ lease.files, file ∈ files) → lease.Shares (manager.leaseOf key)
  deriving Decidable

/-- A request sees the leases it may conflict with. -/
def Sees (manager : LeaseManager) : LeaseCall → Prop
  | .request _ key _ state files =>
    ∀ entry ∈ manager.leases.entries, entry.1 ≠ key →
      manager.Indexed key state files entry.1 entry.2 ∧ manager.Acquainted key files entry.2
  | _ => True

instance (manager : LeaseManager) (call : LeaseCall) : Decidable (manager.Sees call) := by
  unfold Sees
  split <;> infer_instance

end LeaseManager

theorem Orderly.empty : Orderly ∅ := ⟨nofun, nofun⟩

theorem Orderly.conflictFree {manager : LeaseManager} (orderly : Orderly manager.leases) :
    manager.ConflictFree := by
  intro settled first second left right file atFirst atSecond different listed otherListed
  exact Lease.conflictsWith_eq_false
    (orderly.yields atFirst atSecond different ⟨file, listed, otherListed⟩)
    (orderly.yields atSecond atFirst different.symm ⟨file, otherListed, listed⟩)
    (settled atFirst) (settled atSecond)

variable {manager : LeaseManager} {call : LeaseCall}

theorem Orderly.mono {leases fewer : Table LeaseKey Lease} (orderly : Orderly leases)
    (included : ∀ {key lease}, fewer.lookup key = some lease → leases.lookup key = some lease) :
    Orderly fewer :=
  ⟨fun found => orderly.weaker (included found),
    fun atFirst atSecond => orderly.yields (included atFirst) (included atSecond)⟩

section
variable (orderly : Orderly manager.leases)
include orderly

theorem Orderly.release (key : LeaseKey) : Orderly (manager.release key).2.leases := by
  unfold LeaseManager.release
  split
  · refine orderly.mono ?_
    intro query lease found
    rw [lookup_erase_eq] at found
    split at found
    · exact absurd found nofun
    · exact found
  · exact orderly

theorem Orderly.releaseClient (client : ClientId) :
    Orderly (manager.releaseClient client).2.leases :=
  List.foldlRecOn (motive := fun manager : LeaseManager => Orderly manager.leases) _ _ orderly
    fun _ before key _ => before.release key

/-- One lease changed, that lists no more files, has no more flags and keeps its break pending
unless it has no write caching. -/
theorem Orderly.change {key : LeaseKey} {new : Lease} (found : manager.leases.lookup key = some old)
    (files : new.files = old.files) (hasRead : new.state.hasRead = true → old.state.hasRead = true)
    (hasWrite : new.state.hasWrite = true → old.state.hasWrite = true ∧
      (old.breakPending = true → new.breakPending = true))
    (weaker : new.breakTo.hasWrite = false ∧
      (new.breakTo.hasRead = true → new.state.hasRead = true)) :
    Orderly (manager.leases.insert key new) := by
  constructor
  · intro query lease stored
    rcases eq_or_lookup_of_insert stored with ⟨rfl, rfl⟩ | ⟨-, stored⟩
    · exact weaker
    · exact orderly.weaker stored
  · intro first second left right atFirst atSecond different shares
    rw [lookup_insert_eq] at atFirst atSecond
    split at atFirst
    · next here =>
      obtain rfl := Option.some.inj atFirst
      rw [if_neg fun again => different (here.trans again.symm)] at atSecond
      rw [Lease.Shares, files] at shares
      intro writes
      obtain ⟨wrote, kept⟩ := hasWrite writes
      obtain ⟨noWrite, pending⟩ :=
        orderly.yields found atSecond (fun same => different (here.trans same)) shares wrote
      exact ⟨noWrite, fun reads => kept (pending reads)⟩
    · next elsewhere =>
      split at atSecond
      · obtain rfl := Option.some.inj atSecond
        rw [Lease.Shares, files] at shares
        intro writes
        obtain ⟨noWrite, pending⟩ := orderly.yields atFirst found elsewhere shares writes
        refine ⟨eq_false_iff.mpr fun wrote => ?_, fun reads => pending (hasRead reads)⟩
        exact Bool.false_ne_true (noWrite.symm.trans (hasWrite wrote).1)
      · exact orderly.yields atFirst atSecond different shares

/-- The lease of a key and another lease with a file in common, or with a file that the key asks
for while the two are acquainted. -/
theorem Orderly.yields_leaseOf {key : LeaseKey} {lease : Lease} {files : List FileId}
    (found : manager.leases.lookup other = some lease) (foreign : other ≠ key)
    (acquainted : manager.Acquainted key files lease) {file : FileId} (listed : file ∈ lease.files)
    (reached : file ∈ (manager.leaseOf key).files ∨ file ∈ files) :
    lease.Yields (manager.leaseOf key) ∧ (manager.leaseOf key).Yields lease := by
  by_cases shares : lease.Shares (manager.leaseOf key)
  · obtain ⟨shared, left, right⟩ := shares
    -- The key has a lease, since its lease lists a file.
    rcases own : manager.leases.lookup key with _ | existing
    · rw [leaseOf, own] at right
      exact absurd right not_mem_nil
    · have held : manager.leaseOf key = existing := by rw [leaseOf, own]; rfl
      rw [held] at right ⊢
      exact ⟨orderly.yields found own foreign ⟨shared, left, right⟩,
        orderly.yields own found foreign.symm ⟨shared, right, left⟩⟩
  · have requested : file ∈ files := reached.resolve_left fun own => shares ⟨file, listed, own⟩
    have clear : lease.state.conflictsWith (manager.leaseOf key).state = false :=
      eq_false_iff.mpr fun conflict => shares (acquainted conflict ⟨file, listed, requested⟩)
    constructor
    · intro writes
      rw [conflictsWith_of_hasWrite writes, Bool.or_eq_false_iff] at clear
      exact ⟨clear.2, fun reads => absurd (clear.1.symm.trans reads) Bool.false_ne_true⟩
    · intro writes
      rw [conflictsWith_comm, conflictsWith_of_hasWrite writes,
        Bool.or_eq_false_iff] at clear
      exact ⟨clear.2, fun reads => absurd (clear.1.symm.trans reads) Bool.false_ne_true⟩

/-- The lease of the requested key yields to another lease, and the other one to it. -/
theorem Orderly.yields_request {key : LeaseKey} {state : LeaseState} {files : List FileId}
    {own new : Lease} (widened : manager.Widened key state files own)
    (overtaken : manager.Overtaken state files other old new) (foreign : other ≠ key)
    (indexed : manager.Indexed key state files other old)
    (acquainted : manager.Acquainted key files old) (shares : new.Shares own) :
    own.Yields new ∧ new.Yields own := by
  obtain ⟨file, listed, reached⟩ := shares
  rw [overtaken.sameFiles] at listed
  have reached := widened.lists reached
  obtain ⟨back, forth⟩ :=
    orderly.yields_leaseOf overtaken.found foreign acquainted listed reached
  have met (conflict : old.state.conflictsWith state = true) : other ∈ manager.metBy files :=
    indexed conflict ⟨file, listed, reached.symm⟩
  constructor
  · intro writes
    rw [overtaken.sameState, widened.breakPending]
    rcases widened.hasWrite writes with held | ⟨requested, clear⟩
    · exact forth held
    · -- The request was granted write caching, so that no lease it met conflicts.
      have quiet : old.state.conflictsWith state = false := by
        refine eq_false_iff.mpr fun conflict => ?_
        have passed := clear other (met conflict) foreign old overtaken.found
        exact Bool.false_ne_true (passed.symm.trans conflict)
      rw [conflictsWith_comm, conflictsWith_of_hasWrite requested,
        Bool.or_eq_false_iff] at quiet
      exact ⟨quiet.2, fun reads => absurd (quiet.1.symm.trans reads) Bool.false_ne_true⟩
  · intro writes
    rw [overtaken.sameState] at writes
    obtain ⟨noWrite, pending⟩ := back writes
    have clash : old.state.conflictsWith state = (state.hasRead || state.hasWrite) :=
      conflictsWith_of_hasWrite writes
    constructor
    · refine eq_false_iff.mpr fun wrote => ?_
      rcases widened.hasWrite wrote with held | ⟨requested, clear⟩
      · exact Bool.false_ne_true (noWrite.symm.trans held)
      · rw [requested, Bool.or_true] at clash
        have passed := clear other (met clash) foreign old overtaken.found
        exact Bool.false_ne_true (passed.symm.trans clash)
    · intro reads
      rcases widened.hasRead reads with held | requested
      · exact overtaken.pending (pending held)
      · rw [requested, Bool.true_or] at clash
        exact overtaken.broken (met clash) clash

theorem Orderly.weaker_leaseOf (key : LeaseKey) :
    (manager.leaseOf key).breakTo.hasWrite = false ∧
      ((manager.leaseOf key).breakTo.hasRead = true →
        (manager.leaseOf key).state.hasRead = true) := by
  unfold leaseOf
  cases found : manager.leases.lookup key with
  | none =>
    refine ⟨hasWrite_none, fun read => ?_⟩
    exact absurd (LeaseState.hasRead_none.symm.trans read) Bool.false_ne_true
  | some lease => exact orderly.weaker found

theorem Orderly.request {now : ℕ} {key : LeaseKey} {client : ClientId} {state : LeaseState}
    {files : List FileId} (sees : manager.Sees (.request now key client state files)) :
    Orderly (manager.request now key client state files).2.leases := by
  obtain ⟨own, widened, afterwards⟩ := manager.request_cases now key client state files
  have seen {other : LeaseKey} {old new : Lease} (foreign : other ≠ key)
      (overtaken : manager.Overtaken state files other old new) (shares : new.Shares own) :=
    have both := sees ⟨other, old⟩ (AList.mem_lookup_iff.mp overtaken.found) foreign
    orderly.yields_request widened overtaken foreign both.1 both.2 shares
  constructor
  · intro query lease stored
    rcases afterwards stored with ⟨rfl, rfl⟩ | ⟨-, old, overtaken⟩
    · rw [widened.breakTo]
      obtain ⟨noWrite, reads⟩ := orderly.weaker_leaseOf query
      exact ⟨noWrite, fun read => widened.keepsRead (reads read)⟩
    · rw [overtaken.sameState]
      rcases overtaken.breakTo with same | ⟨noWrite, reads⟩
      · rw [same]
        exact orderly.weaker overtaken.found
      · exact ⟨noWrite, fun read => reads.symm.trans read⟩
  · intro first second left right atFirst atSecond different shares
    rcases afterwards atFirst with ⟨rfl, rfl⟩ | ⟨foreignFirst, oldFirst, overtakenFirst⟩
    · rcases afterwards atSecond with ⟨rfl, rfl⟩ | ⟨foreignSecond, oldSecond, overtakenSecond⟩
      · exact absurd rfl different
      · obtain ⟨file, listed, otherListed⟩ := shares
        exact (seen foreignSecond overtakenSecond ⟨file, otherListed, listed⟩).1
    · rcases afterwards atSecond with ⟨rfl, rfl⟩ | ⟨foreignSecond, oldSecond, overtakenSecond⟩
      · exact (seen foreignFirst overtakenFirst shares).2
      · rw [Lease.Shares, overtakenFirst.sameFiles, overtakenSecond.sameFiles] at shares
        rw [Lease.Yields, overtakenFirst.sameState, overtakenSecond.sameState]
        intro writes
        obtain ⟨noWrite, pending⟩ := orderly.yields overtakenFirst.found overtakenSecond.found
          different shares writes
        exact ⟨noWrite, fun reads => overtakenFirst.pending (pending reads)⟩

theorem Orderly.step (sees : manager.Sees call) :
    Orderly (manager.step call).leases := by
  cases call with
  | request now key client state files => exact orderly.request sees
  | renew now key =>
    rw [step, renew]
    split
    · next lease found =>
      have kept := orderly.weaker found
      exact orderly.change found rfl id (fun writes => ⟨writes, id⟩) kept
    · exact orderly
  | release key => exact orderly.release key
  | releaseClient client => exact orderly.releaseClient client
  | acknowledgeBreak key =>
    rw [step, acknowledgeBreak]
    split
    · next lease found =>
      obtain ⟨noWrite, reads⟩ := orderly.weaker found
      refine orderly.change found rfl reads ?_ ⟨hasWrite_none, ?_⟩
      · intro writes
        exact absurd (noWrite.symm.trans writes) Bool.false_ne_true
      · intro read
        exact absurd (LeaseState.hasRead_none.symm.trans read) Bool.false_ne_true
    · exact orderly

end

namespace LeaseManager

/-- Leases are free of conflicts in every state without pending breaks, after every run whose
requests see the leases they may conflict with. -/
theorem conflict_free {leaseDuration : ℕ} {calls : List LeaseCall}
    (sees : Run.Guarded step Sees (new leaseDuration) calls) :
    (Run.after step (new leaseDuration) calls).ConflictFree := by
  refine Orderly.conflictFree ?_
  exact Run.invariant (fun manager => Orderly manager.leases)
    (fun _ _ orderly seen => orderly.step seen) Orderly.empty sees

/-- The file index leads to every lease that lists a file. -/
def Complete (manager : LeaseManager) : Prop :=
  ∀ key lease file, manager.leases.lookup key = some lease → file ∈ lease.files →
    key ∈ manager.getFileLeases file

/-- Leases are requested under keys without a lease. -/
def Fresh (manager : LeaseManager) : LeaseCall → Prop
  | .request _ key _ _ _ => manager.leases.lookup key = none
  | _ => True

theorem mem_enter (key other : LeaseKey) (index : Table FileId (List LeaseKey))
    (files : List FileId) (file : FileId) :
    other ∈ ((enter key index files).lookup file).getD [] ↔
      other ∈ (index.lookup file).getD [] ∨ other = key ∧ file ∈ files := by
  unfold enter
  induction files generalizing index with
  | nil => simp
  | cons entered rest ih =>
    rw [foldl_cons, ih, lookup_insert_eq, mem_cons]
    by_cases here : file = entered
    · subst here
      simp only [if_true, Option.getD_some, mem_append, mem_singleton, true_or,
        and_true, or_assoc, or_iff_left_of_imp And.left]
    · simp [here]

theorem mem_unlist {Name : Type} [DecidableEq Name] {key : LeaseKey}
    {index : Table Name (List LeaseKey)} {name query : Name} (foreign : other ≠ key)
    (listed : other ∈ (index.lookup query).getD []) :
    other ∈ ((unlist key index name).lookup query).getD [] := by
  unfold unlist
  split
  · next keys found =>
    rw [lookup_insert_eq]
    split
    · next here =>
      rw [here, found] at listed
      exact mem_filter.mpr ⟨listed, decide_eq_true foreign⟩
    · exact listed
  · exact listed

variable {manager : LeaseManager}

theorem complete_new (leaseDuration : ℕ) : (new leaseDuration).Complete := by
  intro key lease file found
  have missing : (new leaseDuration).leases.lookup key = none := AList.lookup_empty key
  rw [missing] at found
  exact absurd found nofun

section
variable (complete : manager.Complete)
include complete

theorem Complete.sees (fresh : manager.Fresh call) :
    manager.Sees call := by
  cases call with
  | request now key client state files =>
    have missing : manager.leaseOf key = .new key ⟨0⟩ .none 0 0 := by
      rw [leaseOf, show manager.leases.lookup key = none from fresh]
      rfl
    intro entry member _
    have found := AList.mem_lookup_iff.mpr member
    constructor
    · rintro - ⟨file, listed, requested⟩
      rw [missing] at requested
      have asked : file ∈ files := requested.resolve_right not_mem_nil
      exact mem_flatMap.mpr ⟨file, asked, complete _ _ _ found listed⟩
    · rw [Acquainted, missing]
      intro conflict
      have quiet : entry.2.state.conflictsWith .none = false := by
        simp [conflictsWith]
      exact absurd (quiet.symm.trans conflict) Bool.false_ne_true
  | _ => trivial

theorem Complete.release (key : LeaseKey) :
    (manager.release key).2.Complete := by
  rcases found : manager.leases.lookup key with _ | lease
  · simp only [LeaseManager.release, found]
    exact complete
  · intro other stored file kept listed
    simp only [LeaseManager.release, found, lookup_erase_eq] at kept ⊢
    split at kept
    · exact absurd kept nofun
    · next foreign =>
      -- Each file of the released lease loses the released key only.
      exact List.foldlRecOn
        (motive := fun index : Table FileId (List LeaseKey) => other ∈ (index.lookup file).getD [])
        _ _ (complete _ _ _ kept listed) fun _ before _ _ => mem_unlist foreign before

theorem Complete.releaseClient (client : ClientId) :
    (manager.releaseClient client).2.Complete :=
  List.foldlRecOn (motive := Complete) _ _ complete fun _ before key _ => before.release key

theorem Complete.change {key : LeaseKey} {new : Lease}
    (found : manager.leases.lookup key = some old) (files : new.files = old.files) :
    Complete { manager with leases := manager.leases.insert key new } := by
  intro query lease file stored listed
  rcases eq_or_lookup_of_insert stored with ⟨rfl, rfl⟩ | ⟨-, stored⟩
  · rw [files] at listed
    exact complete _ _ _ found listed
  · exact complete _ _ _ stored listed

omit complete in
theorem byFile_request {key : LeaseKey} (missing : manager.leases.lookup key = none) (now : ℕ)
    (client : ClientId) (state : LeaseState) (files : List FileId) :
    (manager.request now key client state files).2.byFile = enter key manager.byFile files := by
  have same :=
    lookup_foldl_breakExisting key state (manager.metBy files) (state, manager.leases) key
  simp only [ne_eq, not_true, and_false, if_false, missing] at same
  simp only [request, same]

theorem Complete.step (fresh : manager.Fresh call) :
    (manager.step call).Complete := by
  cases call with
  | request now key client state files =>
    have missing : manager.leases.lookup key = none := fresh
    obtain ⟨own, widened, afterwards⟩ := manager.request_cases now key client state files
    intro query lease file stored listed
    rw [step, getFileLeases, byFile_request missing, mem_enter]
    rcases afterwards stored with ⟨rfl, rfl⟩ | ⟨-, old, overtaken⟩
    · have files := widened.lists listed
      rw [leaseOf, missing] at files
      exact .inr ⟨rfl, files.resolve_left not_mem_nil⟩
    · rw [overtaken.sameFiles] at listed
      exact .inl (complete _ _ _ overtaken.found listed)
  | renew now key =>
    rw [step, renew]
    split
    · next lease found => exact complete.change found rfl
    · exact complete
  | release key => exact complete.release key
  | releaseClient client => exact complete.releaseClient client
  | acknowledgeBreak key =>
    rw [step, acknowledgeBreak]
    split
    · next lease found => exact complete.change found rfl
    · exact complete

end

/-- Runs that request every lease under a new key see the leases they may conflict with. -/
theorem sees_of_fresh {leaseDuration : ℕ} {calls : List LeaseCall}
    (fresh : Run.Guarded step Fresh (new leaseDuration) calls) :
    Run.Guarded step Sees (new leaseDuration) calls :=
  Run.guarded_imp Complete (fun _ _ complete new => complete.sees new)
    (fun _ _ complete new => complete.step new) (complete_new leaseDuration) fresh

/-- **Leases under new keys are free of conflicts**, in every state without pending breaks, after
every run that requests each lease under a key without one. -/
theorem fresh_conflict_free {leaseDuration : ℕ} {calls : List LeaseCall}
    (fresh : Run.Guarded step Fresh (new leaseDuration) calls) :
    (Run.after step (new leaseDuration) calls).ConflictFree := by
  refine Orderly.conflictFree ?_
  exact Run.invariant (fun manager => Orderly manager.leases)
    (fun _ _ orderly seen => orderly.step seen) Orderly.empty (sees_of_fresh fresh)

/-- A lease key of one repeated byte. -/
def sampleKey (byte : UInt8) : LeaseKey := .replicate 16 byte

/-- A write request breaks a read lease, and the break is acknowledged. -/
def breaking : List LeaseCall :=
  [.request 0 (sampleKey 1) ⟨1⟩ .read [1], .request 1 (sampleKey 2) ⟨2⟩ .write [1],
    .acknowledgeBreak (sampleKey 1)]

/-- No caches are in conflict after the break. -/
theorem conflict_free_breaking :
    Run.Guarded step Sees (new 300) breaking ∧
      (Run.after step (new 300) breaking).ConflictFree := by
  have sees : Run.Guarded step Sees (new 300) breaking := by decide +kernel
  exact ⟨sees, conflict_free sees⟩

/-- Both clients use a new key. -/
theorem fresh_conflict_free_breaking : (Run.after step (new 300) breaking).ConflictFree :=
  fresh_conflict_free ⟨rfl, rfl, trivial, trivial⟩

/-- A lease is widened to a second file before another client asks for that file. -/
def widening : List LeaseCall :=
  [.request 0 (sampleKey 1) ⟨1⟩ .write [1], .request 1 (sampleKey 1) ⟨1⟩ .write [2],
    .request 2 (sampleKey 2) ⟨2⟩ .write [2]]

/-- The widened lease is not found on the second file, so that two clients have write caching
on it. -/
theorem widened_lease_conflicts : ¬ (Run.after step (new 300) widening).ConflictFree := by
  intro free
  have calm : ∀ entry ∈ (Run.after step (new 300) widening).leases.entries,
      entry.2.breakPending = false := by decide +kernel
  have first : (Run.after step (new 300) widening).leases.lookup (sampleKey 1) =
      some ⟨sampleKey 1, ⟨1⟩, .write, [1, 2], 0, 301, none, false, .none⟩ := by decide +kernel
  have second : (Run.after step (new 300) widening).leases.lookup (sampleKey 2) =
      some ⟨sampleKey 2, ⟨2⟩, .write, [2], 2, 302, none, false, .none⟩ := by decide +kernel
  have quiet : write.conflictsWith .write = false :=
    free (fun found => calm ⟨_, _⟩ (AList.mem_lookup_iff.mp found)) first second
      (by decide +kernel) (mem_cons_of_mem 1 mem_cons_self) mem_cons_self
  revert quiet
  decide

end LeaseManager

end Warp.Gateway
