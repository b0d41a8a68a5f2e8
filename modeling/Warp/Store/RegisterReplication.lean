import Warp.Store.CrdtStore

/-! # Replication of registers

Every put or delete is broadcast with the timestamp it returns, and delivered in any order and any
number of times. A put of a key that exists ticks the clock twice: it broadcasts the first tick and
stores the second, so that a write between the two is ranked differently by the writing replica.

If no write falls between the two ticks of another replica's write of the same key, all replicas
agree on the latest write once every write has been delivered (`registers_converge`).
-/

namespace Warp.Store

open Warp.Crdt List CrdtStore Function HLC

namespace CrdtStore

/-- The timestamp a put leaves in the register: the one it returns, or one tick
later if the key exists. -/
def storedStamp (store : CrdtStore) (key : String) (now again : ℕ) : HLC :=
  if (store.registers.lookup key).isSome then (store.clock.tick now).tick again
  else store.clock.tick now

variable (store : CrdtStore) (key : String) (value : ObjectDataRef) (now again : ℕ)

theorem put_eq :
    (store.put key value now again).2 = store.clock.tick now ∧
      (store.put key value now again).1.clock = store.storedStamp key now again ∧
      (store.put key value now again).1.registers =
        store.registers.insert key ⟨value, store.storedStamp key now again⟩ := by
  unfold put storedStamp
  cases store.registers.lookup key <;> exact ⟨rfl, rfl, rfl⟩

/-- The register after a remote write, which is taken if it is newer. -/
def receiveWrite (register : Option (LWWRegister ObjectDataRef)) (value : ObjectDataRef)
    (stamp : HLC) : LWWRegister ObjectDataRef :=
  register.elim ⟨value, stamp⟩ fun present =>
    if present.timestamp < stamp then ⟨value, stamp⟩ else present

theorem applyRegister_eq (stamp : HLC) (now : ℕ) :
    (store.applyRegister key value stamp now).1.clock = store.clock.receive stamp now ∧
      (store.applyRegister key value stamp now).1.registers =
        store.registers.insert key (receiveWrite (store.registers.lookup key) value stamp) := by
  unfold applyRegister
  cases store.registers.lookup key with
  | none => exact ⟨rfl, rfl⟩
  | some register =>
    refine ⟨rfl, ?_⟩
    simp only [LWWRegister.setWithTimestamp, receiveWrite, Option.elim_some, countMerge, gt_iff_lt]
    split <;> rfl

/-- Without saturation the stored timestamp is a timestamp of the node at or after
the one returned, which lies after the clock. -/
theorem storedStamp_spec (returned : (store.clock.tick now).logical ≠ u32Max)
    (stored : (store.storedStamp key now again).logical ≠ u32Max) :
    store.clock.time < (store.clock.tick now).time ∧
      store.clock.tick now ≤ store.storedStamp key now again ∧
      (store.storedStamp key now again).nodeId = store.clock.nodeId := by
  refine ⟨time_lt_tick _ _ returned, ?_⟩
  unfold storedStamp at *
  by_cases present : (store.registers.lookup key).isSome = true
  · rw [if_pos present] at stored ⊢
    exact ⟨(lt_of_time_lt (time_lt_tick _ _ stored)).le, by simp⟩
  · rw [if_neg present]
    exact ⟨le_rfl, tick_nodeId _ _⟩

end CrdtStore

/-- A put or delete, with the timestamp it was broadcast with and the one its
replica stored. -/
structure Write (Replica : Type*) where
  origin : Replica
  key : String
  value : ObjectDataRef
  stamp : HLC
  stored : HLC
  deriving DecidableEq

namespace Write

variable {Replica : Type*}

def rankAt [DecidableEq Replica] (write : Write Replica) (replica : Replica) : HLC :=
  if write.origin = replica then write.stored else write.stamp

/-- A write's broadcast timestamp falls between the two ticks of another write. -/
def Splits (write other : Write Replica) : Prop :=
  other.stamp < write.stamp ∧ write.stamp < other.stored
  deriving Decidable

end Write

/-- The stores of all replicas, all writes broadcast so far, and the writes
delivered to each replica. -/
structure RegisterNet (Replica : Type*) where
  store : Replica → CrdtStore
  writes : List (Write Replica)
  received : Replica → List (Write Replica)

inductive RegisterAction (Replica : Type*) where
  | put (replica : Replica) (key : String) (value : ObjectDataRef) (now again : ℕ)
  | delete (replica : Replica) (key : String) (now again : ℕ)
  | deliver (broadcast : ℕ) (receiver : Replica) (now : ℕ)

namespace RegisterNet

variable {Replica : Type*}

def initial (nodeId : Replica → NodeId) (start : Replica → ℕ) : RegisterNet Replica where
  store replica := CrdtStore.new (nodeId replica) (start replica)
  writes := []
  received _ := []

def write (net : RegisterNet Replica) (replica : Replica) (key : String) (value : ObjectDataRef)
    (now again : ℕ) : Write Replica where
  origin := replica
  key := key
  value := value
  stamp := ((net.store replica).put key value now again).2
  stored := (net.store replica).storedStamp key now again

/-- Every write has been delivered to every other replica. -/
def Complete (net : RegisterNet Replica) : Prop :=
  ∀ replica, ∀ write ∈ net.writes, write.origin = replica ∨ write ∈ net.received replica

variable [DecidableEq Replica]

/-- One step. A delivery of a write that was never made does nothing. -/
def step (net : RegisterNet Replica) : RegisterAction Replica → RegisterNet Replica
  | .put replica key value now again =>
    { net with
      store := Function.update net.store replica ((net.store replica).put key value now again).1
      writes := net.writes ++ [net.write replica key value now again] }
  | .delete replica key now again =>
    { net with
      store := Function.update net.store replica ((net.store replica).delete key now again).1
      writes := net.writes ++ [net.write replica key default now again] }
  | .deliver broadcast receiver now =>
    match net.writes[broadcast]? with
    | some write =>
      { net with
        store := Function.update net.store receiver
          ((net.store receiver).applyDelta (fun _ => now)
            (.update (.register write.key write.value write.stamp))).1
        received := Function.update net.received receiver (write :: net.received receiver) }
    | none => net

/-- No logical counter saturates in the step. -/
def Unsaturated (net : RegisterNet Replica) : RegisterAction Replica → Prop
  | .put replica key value now again =>
    (net.write replica key value now again).stamp.logical ≠ u32Max ∧
      (net.write replica key value now again).stored.logical ≠ u32Max
  | .delete replica key now again =>
    (net.write replica key default now again).stamp.logical ≠ u32Max ∧
      (net.write replica key default now again).stored.logical ≠ u32Max
  | .deliver broadcast receiver now =>
    ∀ write ∈ net.writes[broadcast]?,
      ((net.store receiver).clock.receive write.stamp now).logical ≠ u32Max

/-- No write of the key falls between the two ticks of another replica's. -/
def ApartFrom (net : RegisterNet Replica) (key : String) (made : Write Replica) : Prop :=
  made.key = key → ∀ write ∈ net.writes, write.key = key → write.origin ≠ made.origin →
    ¬ write.Splits made ∧ ¬ made.Splits write

/-- The condition on one step for a key: a write stays apart from the earlier writes
of the key. -/
def Guard (key : String) (net : RegisterNet Replica) : RegisterAction Replica → Prop
  | .put replica updated value now again =>
    net.ApartFrom key (net.write replica updated value now again)
  | .delete replica updated now again =>
    net.ApartFrom key (net.write replica updated default now again)
  | .deliver _ _ _ => True

instance (net : RegisterNet Replica) (action : RegisterAction Replica) :
    Decidable (net.Unsaturated action) := by
  cases action <;> unfold Unsaturated <;> infer_instance

instance (key : String) (net : RegisterNet Replica) (action : RegisterAction Replica) :
    Decidable (net.Guard key action) := by
  cases action <;> unfold Guard ApartFrom <;> infer_instance

instance [Fintype Replica] (net : RegisterNet Replica) : Decidable net.Complete := by
  unfold Complete
  infer_instance

/-- A write of the key that a replica made or received. -/
def Knows (net : RegisterNet Replica) (key : String) (replica : Replica)
    (write : Write Replica) : Prop :=
  write ∈ net.writes ∧ write.key = key ∧ (write.origin = replica ∨ write ∈ net.received replica)

/-- A register holds the write that the replica ranks highest among those it
knows. -/
def HoldsLatest (net : RegisterNet Replica) (key : String) (replica : Replica) :
    Option (LWWRegister ObjectDataRef) → Prop
  | none => ∀ write, ¬ net.Knows key replica write
  | some register =>
    ∃ write, net.Knows key replica write ∧ register = ⟨write.value, write.rankAt replica⟩ ∧
      ∀ other, net.Knows key replica other → other.rankAt replica ≤ write.rankAt replica

/-- The clocks stay ahead of all timestamps a replica has made or received, and
writes of one replica follow one another. -/
structure Clocked (nodeId : Replica → NodeId) (net : RegisterNet Replica) : Prop where
  nodes : ∀ replica, (net.store replica).clock.nodeId = nodeId replica
  stamps : ∀ write ∈ net.writes, write.stamp.nodeId = nodeId write.origin ∧
    write.stored.nodeId = nodeId write.origin ∧ write.stamp ≤ write.stored
  made : ∀ write ∈ net.writes, write.stored.time ≤ (net.store write.origin).clock.time
  received : ∀ replica, ∀ write ∈ net.received replica,
    write ∈ net.writes ∧ write.stamp.time ≤ (net.store replica).clock.time
  ordered : ∀ first ∈ net.writes, ∀ second ∈ net.writes, first ≠ second →
    first.origin = second.origin →
      first.stored.time < second.stamp.time ∨ second.stored.time < first.stamp.time

/-- What holds after every run that saturates no clock and keeps the writes of the
key apart. -/
structure Replicated (nodeId : Replica → NodeId) (key : String) (net : RegisterNet Replica) :
    Prop where
  clocked : net.Clocked nodeId
  apart : ∀ first ∈ net.writes, ∀ second ∈ net.writes, first.key = key → second.key = key →
    first.origin ≠ second.origin → ¬ first.Splits second
  registers : ∀ replica, net.HoldsLatest key replica ((net.store replica).registers.lookup key)

variable {nodeId : Replica → NodeId} {key : String} (start : Replica → ℕ)
  {net : RegisterNet Replica} {write : Write Replica}

omit [DecidableEq Replica] in
theorem Clocked.initial :
    (RegisterNet.initial nodeId start).Clocked nodeId where
  nodes _ := rfl
  stamps _ member := (not_mem_nil member).elim
  made _ member := (not_mem_nil member).elim
  received _ _ member := (not_mem_nil member).elim
  ordered _ member := (not_mem_nil member).elim

theorem Replicated.initial :
    (RegisterNet.initial nodeId start).Replicated nodeId key where
  clocked := Clocked.initial start
  apart _ member := (not_mem_nil member).elim
  registers _ := by
    simp only [RegisterNet.initial, CrdtStore.new, AList.lookup_empty]
    exact fun write known => not_mem_nil known.1

theorem Clocked.rank_le (clocked : net.Clocked nodeId) {replica : Replica}
    (known : net.Knows key replica write) :
    (write.rankAt replica).time ≤ (net.store replica).clock.time := by
  obtain ⟨member, -, known⟩ := known
  unfold Write.rankAt
  by_cases own : write.origin = replica
  · rw [if_pos own, ← own]
    exact clocked.made write member
  · rw [if_neg own]
    exact (clocked.received replica write (known.resolve_left own)).2

theorem Clocked.rank_bounds (clocked : net.Clocked nodeId) (made : write ∈ net.writes)
    (replica : Replica) :
    write.stamp ≤ write.rankAt replica ∧ write.rankAt replica ≤ write.stored := by
  have ordered := (clocked.stamps write made).2.2
  unfold Write.rankAt
  split
  · exact ⟨ordered, le_rfl⟩
  · exact ⟨le_rfl, ordered⟩

section HoldsLatest
variable {net next : RegisterNet Replica} {replica : Replica}
  {register : Option (LWWRegister ObjectDataRef)}

theorem HoldsLatest.congr
    (same : ∀ write, next.Knows key replica write ↔ net.Knows key replica write)
    (latest : net.HoldsLatest key replica register) :
    next.HoldsLatest key replica register := by
  cases register with
  | none => exact fun write known => latest write ((same write).mp known)
  | some register =>
    obtain ⟨write, known, held, highest⟩ := latest
    exact ⟨write, (same write).mpr known, held, fun other knownOther =>
      highest other ((same other).mp knownOther)⟩

variable (new : Write Replica)
  (knows : ∀ write, next.Knows key replica write ↔ net.Knows key replica write ∨ write = new)
include knows

theorem HoldsLatest.overtake
    (above : ∀ write, net.Knows key replica write → write.rankAt replica ≤ new.rankAt replica) :
    next.HoldsLatest key replica (some ⟨new.value, new.rankAt replica⟩) := by
  refine ⟨new, (knows new).mpr (Or.inr rfl), rfl, fun other known => ?_⟩
  rcases (knows other).mp known with old | same
  · exact above other old
  · rw [same]

theorem HoldsLatest.keep {register : LWWRegister ObjectDataRef}
    (latest : net.HoldsLatest key replica (some register))
    (below : new.rankAt replica ≤ register.timestamp) :
    next.HoldsLatest key replica (some register) := by
  obtain ⟨write, known, rfl, highest⟩ := latest
  refine ⟨write, (knows write).mpr (Or.inl known), rfl, fun other knownOther => ?_⟩
  rcases (knows other).mp knownOther with old | same
  · exact highest other old
  · rw [same]
    exact below

/-- Receiving a write, by its broadcast stamp, keeps the latest write. A replica that
made the write knows it and ranks it at or above its broadcast. -/
theorem HoldsLatest.receive (foreign : ¬net.Knows key replica new → new.rankAt replica = new.stamp)
    (raised : new.stamp ≤ new.rankAt replica) (latest : net.HoldsLatest key replica register) :
    next.HoldsLatest key replica (some (CrdtStore.receiveWrite register new.value new.stamp)) := by
  cases register with
  | none =>
    rw [CrdtStore.receiveWrite, Option.elim_none, ← foreign (latest new)]
    exact HoldsLatest.overtake new knows fun known knownBefore =>
      (latest known knownBefore).elim
  | some held =>
    obtain ⟨top, knownTop, heldEq, highest⟩ := id latest
    rw [CrdtStore.receiveWrite, Option.elim_some]
    by_cases newer : held.timestamp < new.stamp
    · have unknown : ¬net.Knows key replica new := fun known => by
        have bound := highest new known
        rw [heldEq] at newer
        exact absurd (raised.trans bound) (not_le.mpr newer)
      rw [if_pos newer, ← foreign unknown]
      refine HoldsLatest.overtake new knows fun known knownBefore => ?_
      rw [heldEq] at newer
      exact (highest known knownBefore).trans (newer.le.trans raised)
    · rw [if_neg newer]
      refine HoldsLatest.keep new knows latest ?_
      by_cases known : net.Knows key replica new
      · rw [heldEq]
        exact highest new known
      · rw [foreign known]
        exact not_lt.mp newer

end HoldsLatest

section
variable {net next : RegisterNet Replica} {replica : Replica} {changed : CrdtStore}
  (stores : next.store = Function.update net.store replica changed)
include stores

/-- A step that changes the store of one replica and does not set its clock back. -/
theorem Clocked.update (clocked : net.Clocked nodeId)
    (node : changed.clock.nodeId = nodeId replica)
    (later : (net.store replica).clock.time ≤ changed.clock.time) :
    (∀ other, (next.store other).clock.nodeId = nodeId other) ∧
      ∀ other, (net.store other).clock.time ≤ (next.store other).clock.time := by
  rw [stores]
  constructor
  · exact (forall_update_iff net.store fun other store =>
      store.clock.nodeId = nodeId other).mpr ⟨node, fun other _ => clocked.nodes other⟩
  · exact (forall_update_iff net.store fun other store =>
      (net.store other).clock.time ≤ store.clock.time).mpr ⟨later, fun _ _ => le_rfl⟩

/-- A step that sets one register of a replica, which then knows one more write. -/
theorem Replicated.update (replicated : net.Replicated nodeId key) {updated : String}
    {register : LWWRegister ObjectDataRef} {new : Write Replica}
    (inserted : changed.registers = (net.store replica).registers.insert updated register)
    (knows : ∀ other write, next.Knows key other write ↔
      net.Knows key other write ∨ (other = replica ∧ updated = key) ∧ write = new)
    (latest : updated = key → next.HoldsLatest key replica (some register)) (other : Replica) :
    next.HoldsLatest key other ((next.store other).registers.lookup key) := by
  rw [stores]
  by_cases touched : other = replica ∧ updated = key
  · obtain ⟨rfl, rfl⟩ := touched
    rw [update_self, inserted, AList.lookup_insert]
    exact latest rfl
  · have same : (Function.update net.store replica changed other).registers.lookup key =
        (net.store other).registers.lookup key := by
      by_cases own : other = replica
      · subst own
        have different : key ≠ updated := fun same => touched ⟨rfl, same.symm⟩
        rw [update_self, inserted, AList.lookup_insert_ne different]
      · rw [update_of_ne own]
    rw [same]
    refine HoldsLatest.congr (fun write => ?_) (replicated.registers other)
    rw [knows]
    simp [touched]

end

section Put
variable {net : RegisterNet Replica} {replica : Replica} {updated : String}
  {value : ObjectDataRef} {now again : ℕ}

section
variable (clocked : net.Clocked nodeId)
include clocked

section
variable (unsaturated : net.Unsaturated (.put replica updated value now again))
include unsaturated

omit [DecidableEq Replica] in
theorem Clocked.write_spec :
    let made := net.write replica updated value now again
    (net.store replica).clock.time < made.stamp.time ∧ made.stamp ≤ made.stored ∧
      made.stamp.nodeId = nodeId replica ∧ made.stored.nodeId = nodeId replica := by
  have returned : (net.write replica updated value now again).stamp =
      (net.store replica).clock.tick now := (put_eq ..).1
  obtain ⟨stamp, stored⟩ := unsaturated
  dsimp only
  rw [returned] at stamp ⊢
  obtain ⟨later, atOrAfter, node⟩ := (net.store replica).storedStamp_spec updated now again
    stamp stored
  refine ⟨later, atOrAfter, ?_, ?_⟩
  · rw [tick_nodeId, clocked.nodes]
  · exact node.trans (clocked.nodes replica)

theorem Clocked.put :
    (net.step (.put replica updated value now again)).Clocked nodeId := by
  obtain ⟨later, atOrAfter, stampNode, storedNode⟩ := clocked.write_spec unsaturated
  have clock : ((net.store replica).put updated value now again).1.clock =
      (net.write replica updated value now again).stored := (put_eq ..).2.1
  obtain ⟨nodes, grown⟩ := clocked.update
    (show (net.step (.put replica updated value now again)).store = _ from rfl) (clock ▸ storedNode)
    (clock ▸ later.le.trans (time_le_of_le atOrAfter))
  refine ⟨nodes, forall_mem_append.mpr ⟨clocked.stamps, ?_⟩,
    forall_mem_append.mpr ⟨fun write old => (clocked.made write old).trans (grown _), ?_⟩,
    fun other write member => ?_, ?_⟩
  · exact forall_mem_singleton.mpr ⟨stampNode, storedNode, atOrAfter⟩
  · rw [forall_mem_singleton]
    change _ ≤ ((net.step _).store replica).clock.time
    simp [step, clock]
  · obtain ⟨old, bound⟩ := clocked.received other write member
    exact ⟨mem_append_left _ old, bound.trans (grown other)⟩
  · have follows : ∀ write ∈ net.writes, write.origin = replica →
        write.stored.time < (net.write replica updated value now again).stamp.time := by
      intro write old same
      have bound := clocked.made write old
      rw [same] at bound
      exact bound.trans_lt later
    intro first firstMember second secondMember different same
    rcases mem_append.mp firstMember with firstOld | firstNew <;>
      rcases mem_append.mp secondMember with secondOld | secondNew
    · exact clocked.ordered first firstOld second secondOld different same
    · rw [mem_singleton.mp secondNew] at same ⊢
      exact Or.inl (follows first firstOld same)
    · rw [mem_singleton.mp firstNew] at same ⊢
      exact Or.inr (follows second secondOld same.symm)
    · rw [mem_singleton.mp firstNew, mem_singleton.mp secondNew] at different
      exact (different rfl).elim

end

variable (key replica updated value now again) in
theorem Clocked.knows_put_iff (other : Replica) (write : Write Replica) :
    (net.step (.put replica updated value now again)).Knows key other write ↔
      net.Knows key other write ∨ (other = replica ∧ updated = key) ∧
        write = net.write replica updated value now again := by
  constructor
  · rintro ⟨member, sameKey, known⟩
    rcases mem_append.mp member with old | new
    · exact Or.inl ⟨old, sameKey, known⟩
    · obtain rfl := mem_singleton.mp new
      rcases known with made | received
      · exact Or.inr ⟨⟨made.symm, sameKey⟩, rfl⟩
      · obtain ⟨old, -⟩ := clocked.received other _ received
        exact Or.inl ⟨old, sameKey, Or.inr received⟩
  · rintro (old | ⟨⟨own, sameKey⟩, rfl⟩)
    · exact ⟨mem_append_left _ old.1, old.2⟩
    · exact ⟨mem_append_right _ (mem_singleton_self _), sameKey, Or.inl own.symm⟩

end

/-- A put that saturates nothing and stays apart from the other writes of the key
keeps every replica's register at the latest write it knows. -/
theorem Replicated.put (replicated : net.Replicated nodeId key)
    (unsaturated : net.Unsaturated (.put replica updated value now again))
    (apart : net.ApartFrom key (net.write replica updated value now again)) :
    (net.step (.put replica updated value now again)).Replicated nodeId key := by
  have knows := replicated.clocked.knows_put_iff key replica updated value now again
  refine ⟨replicated.clocked.put unsaturated, ?_, replicated.update rfl (put_eq ..).2.2 knows ?_⟩
  · intro first firstMember second secondMember firstKey secondKey different
    rcases mem_append.mp firstMember with firstOld | firstNew <;>
      rcases mem_append.mp secondMember with secondOld | secondNew
    · exact replicated.apart first firstOld second secondOld firstKey secondKey different
    · rw [mem_singleton.mp secondNew] at secondKey different ⊢
      exact (apart secondKey first firstOld firstKey different).1
    · rw [mem_singleton.mp firstNew] at firstKey different ⊢
      exact (apart firstKey second secondOld secondKey different.symm).2
    · rw [mem_singleton.mp firstNew, mem_singleton.mp secondNew] at different
      exact (different rfl).elim
  · intro same
    obtain ⟨later, atOrAfter, -, -⟩ := replicated.clocked.write_spec unsaturated
    have ranked : (net.write replica updated value now again).rankAt replica =
        (net.store replica).storedStamp updated now again := if_pos rfl
    rw [← ranked]
    refine HoldsLatest.overtake (net.write replica updated value now again)
      (fun write => by simpa [same] using knows replica write) fun write known => ?_
    have bound := replicated.clocked.rank_le known
    rw [ranked]
    exact ((lt_of_time_lt (bound.trans_lt later)).trans_le atOrAfter).le

end Put

section Deliver
variable {net : RegisterNet Replica} {broadcast : ℕ} {receiver : Replica} {now : ℕ}
  {write : Write Replica}

theorem step_deliver (found : net.writes[broadcast]? = some write) :
    net.step (.deliver broadcast receiver now) =
      { net with
        store := Function.update net.store receiver
          ((net.store receiver).applyRegister write.key write.value write.stamp now).1
        received := Function.update net.received receiver (write :: net.received receiver) } := by
  simp only [step, found]
  rfl

theorem Clocked.deliver (clocked : net.Clocked nodeId)
    (found : net.writes[broadcast]? = some write)
    (unsaturated : ((net.store receiver).clock.receive write.stamp now).logical ≠ u32Max) :
    (net.step (.deliver broadcast receiver now)).Clocked nodeId := by
  obtain ⟨afterClock, afterSent⟩ := time_lt_receive _ _ _ unsaturated
  have clock := ((net.store receiver).applyRegister_eq write.key write.value write.stamp now).1
  have node : ((net.store receiver).clock.receive write.stamp now).nodeId = nodeId receiver :=
    (receive_nodeId ..).trans (clocked.nodes receiver)
  obtain ⟨nodes, grown⟩ := clocked.update (congrArg store (step_deliver found)) (clock ▸ node)
    (clock ▸ afterClock.le)
  have kept : (net.step (.deliver broadcast receiver now)).writes = net.writes := by
    rw [step_deliver found]
  refine ⟨nodes, ?_, fun made member => ?_, fun other delivered member => ?_, ?_⟩
  · rw [kept]
    exact clocked.stamps
  · rw [kept] at member
    exact (clocked.made made member).trans (grown _)
  · rw [kept]
    have old (member : delivered ∈ net.received other) :=
      clocked.received other delivered member
    by_cases own : other = receiver
    · subst own
      rw [step_deliver found] at member ⊢
      simp only [update_self, mem_cons] at member ⊢
      rcases member with rfl | member
      · rw [clock]
        exact ⟨mem_of_getElem? found, afterSent.le⟩
      · rw [clock]
        exact ⟨(old member).1, (old member).2.trans afterClock.le⟩
    · rw [step_deliver found] at member
      simp only [update_of_ne own] at member
      exact ⟨(old member).1, (old member).2.trans (grown other)⟩
  · rw [kept]
    exact clocked.ordered

variable (key receiver now) in
theorem knows_deliver_iff (found : net.writes[broadcast]? = some write) (other : Replica)
    (known : Write Replica) :
    (net.step (.deliver broadcast receiver now)).Knows key other known ↔
      net.Knows key other known ∨ (other = receiver ∧ write.key = key) ∧ known = write := by
  have member := mem_of_getElem? found
  rw [step_deliver found]
  unfold Knows
  by_cases own : other = receiver
  · subst own
    simp only [update_self, mem_cons]
    constructor
    · rintro ⟨old, sameKey, made | rfl | received⟩
      · exact Or.inl ⟨old, sameKey, Or.inl made⟩
      · exact Or.inr ⟨⟨trivial, sameKey⟩, rfl⟩
      · exact Or.inl ⟨old, sameKey, Or.inr received⟩
    · rintro (⟨old, sameKey, made | received⟩ | ⟨⟨-, sameKey⟩, rfl⟩)
      · exact ⟨old, sameKey, Or.inl made⟩
      · exact ⟨old, sameKey, Or.inr (Or.inr received)⟩
      · exact ⟨member, sameKey, Or.inr (Or.inl rfl)⟩
  · simp [own]

theorem Replicated.deliver (replicated : net.Replicated nodeId key)
    (found : net.writes[broadcast]? = some write)
    (unsaturated : ((net.store receiver).clock.receive write.stamp now).logical ≠ u32Max) :
    (net.step (.deliver broadcast receiver now)).Replicated nodeId key := by
  have member := mem_of_getElem? found
  have kept : (net.step (.deliver broadcast receiver now)).writes = net.writes := by
    rw [step_deliver found]
  have knows := knows_deliver_iff key receiver now found
  refine ⟨replicated.clocked.deliver found unsaturated, ?_,
    replicated.update (congrArg store (step_deliver found)) (applyRegister_eq ..).2 knows ?_⟩
  · rw [kept]
    exact replicated.apart
  · rintro rfl
    refine HoldsLatest.receive _ (fun known => ?_) (fun unknown => ?_)
      (replicated.clocked.rank_bounds member receiver).1 (replicated.registers receiver)
    · simpa using knows receiver known
    · exact if_neg fun own => unknown ⟨member, rfl, Or.inl own⟩

end Deliver

theorem Replicated.step (replicated : net.Replicated nodeId key) {action : RegisterAction Replica}
    (unsaturated : net.Unsaturated action) (guarded : net.Guard key action) :
    (net.step action).Replicated nodeId key := by
  cases action with
  | put replica updated value now again => exact replicated.put unsaturated guarded
  | delete replica updated now again => exact replicated.put unsaturated guarded
  | deliver broadcast receiver now =>
    cases found : net.writes[broadcast]? with
    | none => simpa only [RegisterNet.step, found] using replicated
    | some write => exact replicated.deliver found (unsaturated write found)

variable {net : RegisterNet Replica} {first second : Write Replica}

omit [DecidableEq Replica] in
theorem Clocked.eq_of_stamp_eq (clocked : net.Clocked nodeId)
    (distinct : Function.Injective nodeId) (firstMade : first ∈ net.writes)
    (secondMade : second ∈ net.writes) (same : first.stamp = second.stamp) : first = second := by
  by_contra different
  obtain ⟨firstNode, -, firstOrder⟩ := clocked.stamps first firstMade
  obtain ⟨secondNode, -, secondOrder⟩ := clocked.stamps second secondMade
  have origin : first.origin = second.origin :=
    distinct (by rw [← firstNode, ← secondNode, same])
  rcases clocked.ordered first firstMade second secondMade different origin with before | after
  · exact absurd (same ▸ firstOrder) (not_le.mpr (HLC.lt_of_time_lt before))
  · exact absurd (same ▸ secondOrder) (not_le.mpr (HLC.lt_of_time_lt after))

/-- Every replica ranks the writes of the key by their broadcast timestamps. -/
theorem Replicated.rank_lt (replicated : net.Replicated nodeId key)
    (distinct : Function.Injective nodeId) (firstMade : first ∈ net.writes)
    (secondMade : second ∈ net.writes) (firstKey : first.key = key) (secondKey : second.key = key)
    (earlier : first.stamp < second.stamp) (replica : Replica) :
    first.rankAt replica < second.rankAt replica := by
  obtain ⟨-, firstStored, -⟩ := replicated.clocked.stamps first firstMade
  obtain ⟨secondNode, -, secondOrder⟩ := replicated.clocked.stamps second secondMade
  have firstRank := (replicated.clocked.rank_bounds firstMade replica).2
  have secondRank := (replicated.clocked.rank_bounds secondMade replica).1
  by_cases origin : first.origin = second.origin
  · have different : first ≠ second := by
      rintro rfl
      exact lt_irrefl _ earlier
    rcases replicated.clocked.ordered first firstMade second secondMade different origin with
      before | after
    · exact firstRank.trans_lt ((lt_of_time_lt before).trans_le secondRank)
    · have reversed := secondOrder.trans_lt (lt_of_time_lt after)
      exact absurd earlier (not_lt.mpr reversed.le)
  · by_cases own : first.origin = replica
    · have apart := replicated.apart second secondMade first firstMade secondKey firstKey
        (Ne.symm origin)
      have before : first.stored ≤ second.stamp := not_lt.mp fun split => apart ⟨earlier, split⟩
      have different : first.stored ≠ second.stamp := by
        intro same
        exact origin (distinct (by rw [← firstStored, ← secondNode, same]))
      exact firstRank.trans_lt ((lt_of_le_of_ne before different).trans_le secondRank)
    · rw [Write.rankAt, if_neg own]
      exact earlier.trans_le secondRank

/-- A replica that knows every write of the key holds the one with the greatest
broadcast timestamp. -/
theorem Replicated.holds_greatest (replicated : net.Replicated nodeId key)
    (distinct : Function.Injective nodeId) (complete : net.Complete) (replica : Replica) :
    match (net.store replica).get key with
    | none => ∀ write ∈ net.writes, write.key ≠ key
    | some value => ∃ latest ∈ net.writes, latest.key = key ∧ latest.value = value ∧
        ∀ write ∈ net.writes, write.key = key → write.stamp ≤ latest.stamp := by
  have register := replicated.registers replica
  unfold CrdtStore.get
  cases found : (net.store replica).registers.lookup key with
  | none =>
    rw [found] at register
    exact fun write made sameKey => register write ⟨made, sameKey, complete replica write made⟩
  | some held =>
    rw [found] at register
    obtain ⟨latest, ⟨latestMade, latestKey, -⟩, rfl, highest⟩ := register
    refine ⟨latest, latestMade, latestKey, rfl, fun write made sameKey =>
      not_lt.mp fun later => ?_⟩
    have above := highest write ⟨made, sameKey, complete replica write made⟩
    have below := replicated.rank_lt distinct latestMade made latestKey sameKey later replica
    exact absurd above (not_le.mpr below)

end RegisterNet

open RegisterNet

variable {Replica : Type*} [DecidableEq Replica]

/-- **Registers converge** in any run that saturates no clock and in which no write
of the key falls between the two ticks of another replica's: once every write has
been delivered everywhere, all replicas read the same. -/
theorem registers_converge (nodeId : Replica → NodeId) (distinct : Function.Injective nodeId)
    (start : Replica → ℕ) (key : String) (actions : List (RegisterAction Replica))
    (unsaturated : Run.Guarded RegisterNet.step RegisterNet.Unsaturated
      (RegisterNet.initial nodeId start) actions)
    (guarded : Run.Guarded RegisterNet.step (RegisterNet.Guard key)
      (RegisterNet.initial nodeId start) actions)
    (complete : (Run.after RegisterNet.step (RegisterNet.initial nodeId start) actions).Complete)
    (first second : Replica) :
    let net := Run.after step (initial nodeId start) actions
    (net.store first).get key = (net.store second).get key := by
  intro net
  have replicated : net.Replicated nodeId key :=
    Run.invariant _ (fun _ _ before meets => before.step meets.1 meets.2)
      (RegisterNet.Replicated.initial start) (unsaturated.and guarded)
  have firstHolds := replicated.holds_greatest distinct complete first
  have secondHolds := replicated.holds_greatest distinct complete second
  cases firstReads : (net.store first).get key with
  | none =>
    cases secondReads : (net.store second).get key with
    | none => rfl
    | some value =>
      rw [firstReads] at firstHolds
      rw [secondReads] at secondHolds
      obtain ⟨write, made, sameKey, -⟩ := secondHolds
      exact (firstHolds write made sameKey).elim
  | some value =>
    rw [firstReads] at firstHolds
    obtain ⟨latest, made, latestKey, rfl, greatest⟩ := firstHolds
    cases secondReads : (net.store second).get key with
    | none =>
      rw [secondReads] at secondHolds
      exact (secondHolds latest made latestKey).elim
    | some value =>
      rw [secondReads] at secondHolds
      obtain ⟨other, otherMade, otherKey, rfl, otherGreatest⟩ := secondHolds
      have same := le_antisymm (otherGreatest latest made latestKey)
        (greatest other otherMade otherKey)
      rw [replicated.clocked.eq_of_stamp_eq distinct made otherMade same]

/-- Replica `true` overwrites its draft at times 2 and 3, while replica `false` writes at time 5.
The overwrite is delivered twice, and before the draft. -/
theorem registers_converge_concurrent :
    let draft : ObjectDataRef := { (default : ObjectDataRef) with key := "draft" }
    let final : ObjectDataRef := { (default : ObjectDataRef) with key := "final" }
    let other : ObjectDataRef := { (default : ObjectDataRef) with key := "other" }
    let actions : List (RegisterAction Bool) :=
      [.put true "doc" draft 1 1, .put true "doc" final 2 3, .put false "doc" other 5 5,
        .deliver 1 false 10, .deliver 0 false 10, .deliver 1 false 11, .deliver 2 true 10]
    let net := Run.after step (initial Bool.toNat fun _ => 0) actions
    net.writes.length = 3 ∧ ((net.store true).get "doc").map ObjectDataRef.key = some "other" ∧
      (net.store false).get "doc" = (net.store true).get "doc" := by
  intro draft final other actions net
  refine ⟨rfl, by decide, registers_converge Bool.toNat (by decide) (fun _ => 0) "doc" actions
    (by decide) (by decide) (by decide) false true⟩

/-- Replica `true` overwrites its draft at times 2 and 9, while replica `false`
writes at time 5: it ranks above the broadcast of the overwrite and below what
replica `true` stored. -/
theorem registers_diverge :
    let draft : ObjectDataRef := { (default : ObjectDataRef) with key := "draft" }
    let final : ObjectDataRef := { (default : ObjectDataRef) with key := "final" }
    let other : ObjectDataRef := { (default : ObjectDataRef) with key := "other" }
    let actions : List (RegisterAction Bool) :=
      [.put true "doc" draft 1 1, .put true "doc" final 2 9, .put false "doc" other 5 5,
        .deliver 0 false 10, .deliver 1 false 10, .deliver 2 true 10]
    let net := Run.after step (initial Bool.toNat fun _ => 0) actions
    net.Complete ∧
      Run.Guarded step RegisterNet.Unsaturated
        (initial Bool.toNat fun _ => 0) actions ∧
      ((net.store true).get "doc").map ObjectDataRef.key = some "final" ∧
      ((net.store false).get "doc").map ObjectDataRef.key = some "other" := by
  decide

end Warp.Store
