import Mathlib.Data.Fintype.Basic
import Warp.Store.CrdtStore

/-! # Replication of sets

Deltas are delivered in any order and any number of times. A delta names the elements that its
sender holds and nothing of what it has removed. Rounds in which everyone hears from everyone
therefore bring a removed element back to all replicas, unless no replica holds it when the rounds
begin (`SetNet.removal_lasts_iff`).
-/

namespace Warp.Crdt.ORSet

open List

variable {T : Type*} [DecidableEq T] (set : ORSet T)

theorem contains_add (added element : T) :
    (set.add added).contains element = true ↔ element = added ∨ set.contains element = true := by
  rw [contains_iff, contains_iff]
  by_cases same : element = added
  · refine iff_of_true ?_ (.inl same)
    rw [same, dots, add, Table.lookup_insert_eq, if_pos rfl, Option.getD_some]
    exact Finset.insert_ne_empty _ _
  · rw [dots_add_of_ne set same, or_iff_right same]

theorem mem_iter_iff (element : T) :
    element ∈ set.iter ↔ set.contains element = true := by
  rw [contains_iff, iter, mem_map]
  constructor
  · rintro ⟨entry, member, rfl⟩
    obtain ⟨stored, nonempty⟩ := mem_filter.mp member
    have found : set.elements.lookup entry.1 = some entry.2 := AList.mem_lookup_iff.mpr stored
    rw [dots, found, Option.getD_some]
    simpa using nonempty
  · intro nonempty
    unfold dots at nonempty
    cases found : set.elements.lookup element with
    | none => exact absurd (congrArg (Option.getD · ∅) found) nonempty
    | some dots =>
      rw [found, Option.getD_some] at nonempty
      refine ⟨⟨element, dots⟩, mem_filter.mpr ⟨AList.mem_lookup_iff.mp found, ?_⟩, rfl⟩
      simpa using nonempty

end Warp.Crdt.ORSet

namespace Warp.Store

open Warp.Crdt List Function

namespace CrdtStore

variable {key element : String} (store : CrdtStore) (sender : CrdtStore) (addedKey added : String)
  (now : ℕ) (update : CrdtUpdate)

theorem setContains_iff : store.setContains key element = true ↔
    ∃ set, store.sets.lookup key = some set ∧ set.contains element = true := by
  unfold setContains
  cases store.sets.lookup key with
  | none => simp
  | some set => simp

theorem setContains_congr {first second : CrdtStore} (same : first.sets = second.sets) :
    first.setContains key element = second.setContains key element := by
  rw [setContains, same, setContains]

def setAt (store : CrdtStore) (key : String) : ORSet String :=
  (store.sets.lookup key).getD (ORSet.new store.nodeId)

theorem contains_setAt :
    (store.setAt key).contains element = store.setContains key element := by
  unfold setAt setContains
  cases store.sets.lookup key with
  | none => rfl
  | some set => rfl

theorem setContains_insert_add :
    setContains { store with
        sets := store.sets.insert addedKey ((store.setAt addedKey).add added) } key element = true ↔
      store.setContains key element = true ∨ key = addedKey ∧ element = added := by
  rw [setContains_iff]
  simp only [Table.lookup_insert_eq]
  by_cases same : key = addedKey
  · subst same
    simp only [if_pos, Option.some.injEq, exists_eq_left', ORSet.contains_add, contains_setAt,
      true_and]
    exact or_comm
  · rw [if_neg same, ← setContains_iff, or_iff_left fun both => same both.1]

theorem setContains_applySetAdd :
    (store.applySetAdd addedKey added).1.setContains key element = true ↔
      store.setContains key element = true ∨ key = addedKey ∧ element = added := by
  rw [← setContains_insert_add]
  unfold applySetAdd
  cases found : store.sets.lookup addedKey with
  | none =>
    have current : store.setAt addedKey = ORSet.new store.nodeId := by rw [setAt, found]; rfl
    rw [current]
    rfl
  | some set =>
    have current : store.setAt addedKey = set := by rw [setAt, found]; rfl
    dsimp only
    split_ifs with present
    · -- Adding an element that is there changes the dots only.
      rw [setContains_insert_add, or_iff_left_of_imp]
      · rfl
      · rintro ⟨rfl, rfl⟩
        rw [← contains_setAt, current]
        exact present
    · rw [current]
      rfl

theorem sets_applyUpdate (noAdd : ∀ key element dot, update ≠ .setAdd key element dot)
    (noRemove : ∀ key element, update ≠ .setRemove key element) :
    (store.applyUpdate now update).1.sets = store.sets := by
  cases update with
  | setAdd key element dot => exact absurd rfl (noAdd key element dot)
  | setRemove key element => exact absurd rfl (noRemove key element)
  | register key value timestamp =>
    simp only [applyUpdate, applyRegister]
    cases store.registers.lookup key <;> rfl
  | gCounterIncrement key nodeId value =>
    simp only [applyUpdate, applyGCounter]
    cases store.gCounters.lookup key <;> rfl
  | pnCounterUpdate key nodeId positive negative =>
    simp only [applyUpdate, applyPNCounter]
    cases store.pnCounters.lookup key <;> rfl

/-- An update that removes nothing adds at most the element that it names. -/
theorem setContains_applyUpdate (noRemove : ∀ key element, update ≠ .setRemove key element) :
    (store.applyUpdate now update).1.setContains key element = true ↔
      store.setContains key element = true ∨ ∃ dot, update = .setAdd key element dot := by
  by_cases adds : ∃ addedKey added dot, update = .setAdd addedKey added dot
  · obtain ⟨addedKey, added, dot, rfl⟩ := adds
    refine (setContains_applySetAdd store addedKey added).trans (or_congr_right ?_)
    constructor
    · rintro ⟨rfl, rfl⟩
      exact ⟨dot, rfl⟩
    · rintro ⟨_, ⟨⟩⟩
      exact ⟨rfl, rfl⟩
  · have noAdd : ∀ key element dot, update ≠ .setAdd key element dot :=
      fun key element dot same => adds ⟨key, element, dot, same⟩
    rw [setContains_congr (sets_applyUpdate store now update noAdd noRemove), or_iff_left]
    rintro ⟨dot, same⟩
    exact noAdd key element dot same

theorem setContains_applyUpdates (now : ℕ → ℕ) {updates : List CrdtUpdate}
    (noRemove : ∀ update ∈ updates, ∀ key element, update ≠ .setRemove key element) :
    (store.applyUpdates now updates).1.setContains key element = true ↔
      store.setContains key element = true ∨ ∃ dot, .setAdd key element dot ∈ updates := by
  induction updates generalizing store now with
  | nil => simp [applyUpdates]
  | cons update rest ih =>
    obtain ⟨first, others⟩ := forall_mem_cons.mp noRemove
    refine (ih (store.applyUpdate (now 0) update).1 _ others).trans ?_
    rw [setContains_applyUpdate store _ update first, or_assoc]
    simp only [mem_cons, exists_or, eq_comm]

theorem updates_exportState_ne_setRemove :
    ∀ update ∈ sender.exportState.updates, ∀ key element, update ≠ .setRemove key element := by
  rintro update member key element rfl
  simp [FullState.updates, FullState.registerUpdates, FullState.setUpdates,
    FullState.gCounterUpdates, FullState.pnCounterUpdates] at member

theorem setAdd_mem_updates_exportState :
    (∃ dot, .setAdd key element dot ∈ sender.exportState.updates) ↔
      sender.setContains key element = true := by
  have named (dot : Dot) : .setAdd key element dot ∈ sender.exportState.updates ↔
      ∃ set, ⟨key, set⟩ ∈ sender.sets.entries ∧ element ∈ set.iter ∧ (sender.nodeId, 0) = dot := by
    simp [FullState.updates, FullState.registerUpdates, FullState.setUpdates,
      FullState.gCounterUpdates, FullState.pnCounterUpdates, exportState]
  simp only [setContains_iff, named]
  constructor
  · rintro ⟨dot, set, stored, present, -⟩
    exact ⟨set, AList.mem_lookup_iff.mpr stored, (set.mem_iter_iff element).mp present⟩
  · rintro ⟨set, found, present⟩
    exact ⟨_, set, AList.mem_lookup_iff.mp found, (set.mem_iter_iff element).mpr present, rfl⟩

/-- A delivery adds what the sender held, and removes nothing. -/
theorem setContains_delivered (store sender : CrdtStore) (now : ℕ → ℕ) :
    (store.applyDelta now sender.generateDelta).1.setContains key element = true ↔
      store.setContains key element = true ∨ sender.setContains key element = true :=
  (setContains_applyUpdates store now sender.updates_exportState_ne_setRemove).trans
    (or_congr_right sender.setAdd_mem_updates_exportState)

end CrdtStore

/-- The stores of all replicas, and the senders of all deltas as they were then. -/
structure SetNet (Replica : Type*) where
  store : Replica → CrdtStore
  messages : List CrdtStore

/-- One step of the replicas: an operation, the generation of a delta, or the delivery of a
delta. -/
inductive SetNetAction (Replica : Type*) where
  | add (replica : Replica) (key element : String)
  | remove (replica : Replica) (key element : String)
  | generate (replica : Replica)
  | deliver (message : ℕ) (receiver : Replica) (now : ℕ → ℕ)

/-- An exchange: who generates a delta, and which of these deltas is delivered to whom. -/
structure Round (Replica : Type*) where
  senders : List Replica
  deliveries : List (ℕ × Replica × (ℕ → ℕ))

/-- Everyone hears from everyone. -/
def Round.AllToAll {Replica : Type*} (round : Round Replica) : Prop :=
  ∀ sender receiver, ∃ place now, round.senders[place]? = some sender ∧
    (place, receiver, now) ∈ round.deliveries

/-- Everyone generates a delta, which is delivered to everyone. -/
theorem Round.exists_allToAll (Replica : Type*) [Fintype Replica] :
    ∃ round : Round Replica, round.AllToAll := by
  classical
  let senders : List Replica := Finset.univ.toList
  refine ⟨⟨senders, (List.range senders.length).flatMap fun place =>
    senders.map fun receiver => (place, receiver, fun _ => 0)⟩, fun sender receiver => ?_⟩
  obtain ⟨place, bound, found⟩ :=
    mem_iff_getElem.mp (Finset.mem_toList.mpr (Finset.mem_univ sender))
  refine ⟨place, fun _ => 0, ?_, ?_⟩
  · rw [getElem?_eq_getElem bound, found]
  · exact mem_flatMap.mpr ⟨place, mem_range.mpr bound,
      mem_map.mpr ⟨receiver, Finset.mem_toList.mpr (Finset.mem_univ receiver), rfl⟩⟩

namespace SetNet

variable {Replica : Type*}

def initial (nodeId : Replica → NodeId) (start : Replica → ℕ) : SetNet Replica where
  store replica := CrdtStore.new (nodeId replica) (start replica)
  messages := []

variable [DecidableEq Replica]

/-- One step. A delivery of a delta that was never generated does nothing. -/
def step (net : SetNet Replica) : SetNetAction Replica → SetNet Replica
  | .add replica key element =>
    { net with
      store := Function.update net.store replica ((net.store replica).setAdd key element) }
  | .remove replica key element =>
    { net with
      store := Function.update net.store replica ((net.store replica).setRemove key element) }
  | .generate replica => { net with messages := net.messages ++ [net.store replica] }
  | .deliver message receiver now =>
    match net.messages[message]? with
    | none => net
    | some sender =>
      { net with
        store := Function.update net.store receiver
          ((net.store receiver).applyDelta now sender.generateDelta).1 }

def exchange (net : SetNet Replica) (round : Round Replica) : SetNet Replica :=
  Run.after step net (round.senders.map .generate ++
    round.deliveries.map fun (place, receiver, now) =>
      .deliver (net.messages.length + place) receiver now)

/-- After enough rounds no replica reports the element. -/
def Forgets (net : SetNet Replica) (key element : String) : Prop :=
  ∃ enough, ∀ rounds : List (Round Replica), enough ≤ rounds.length →
    (∀ round ∈ rounds, round.AllToAll) →
    ∀ replica, ((Run.after exchange net rounds).store replica).setContains key element = false

variable {net : SetNet Replica} {key element : String}

/-- The generation of a delta, or the delivery of one that is not older than `base`. -/
def Fresh (base : ℕ) (_ : SetNet Replica) : SetNetAction Replica → Prop
  | .add _ _ _ | .remove _ _ _ => False
  | .generate _ => True
  | .deliver message _ _ => base ≤ message

theorem fresh_exchange (net : SetNet Replica) (round : Round Replica) :
    Run.Guarded step (Fresh net.messages.length) net (round.senders.map .generate ++
      round.deliveries.map fun (place, receiver, now) =>
        .deliver (net.messages.length + place) receiver now) := by
  apply Run.guarded_of_forall
  intro action member state
  rcases mem_append.mp member with generated | delivered
  · obtain ⟨sender, -, rfl⟩ := mem_map.mp generated
    trivial
  · obtain ⟨delivery, -, rfl⟩ := mem_map.mp delivered
    exact Nat.le_add_right _ _

theorem contains_exchange (round : Round Replica) {replica : Replica}
    (held : (net.store replica).setContains key element = true) :
    ((net.exchange round).store replica).setContains key element = true := by
  refine Run.invariant (fun net => (net.store replica).setContains key element = true) ?_ held
    (net.fresh_exchange round)
  intro state action held fresh
  cases action with
  | add _ _ _ => exact fresh.elim
  | remove _ _ _ => exact fresh.elim
  | generate _ => exact held
  | deliver message receiver now =>
    cases found : state.messages[message]? with
    | none =>
      simp only [step, found]
      exact held
    | some sender =>
      simp only [step, found]
      by_cases own : replica = receiver
      · subst own
        rw [update_self, CrdtStore.setContains_delivered]
        exact .inl held
      · rw [update_of_ne own]
        exact held

/-- No replica holds the element, and neither does a delta from `base` on. -/
structure Absent (key element : String) (base : ℕ) (net : SetNet Replica) : Prop where
  replicas : ∀ replica, (net.store replica).setContains key element = false
  messages : ∀ message sender, net.messages[message]? = some sender → base ≤ message →
    sender.setContains key element = false

theorem Absent.step {base : ℕ} (absent : net.Absent key element base)
    {action : SetNetAction Replica} (fresh : Fresh base net action) :
    (net.step action).Absent key element base := by
  cases action with
  | add _ _ _ => exact fresh.elim
  | remove _ _ _ => exact fresh.elim
  | generate replica =>
    refine ⟨absent.replicas, fun message sender found recent => ?_⟩
    simp only [SetNet.step, getElem?_append] at found
    split_ifs at found with old
    · exact absent.messages message sender found recent
    · rw [mem_singleton.mp (mem_of_getElem? found)]
      exact absent.replicas replica
  | deliver message receiver now =>
    cases found : net.messages[message]? with
    | none =>
      simp only [SetNet.step, found]
      exact absent
    | some sender =>
      simp only [SetNet.step, found]
      refine ⟨fun replica => ?_, absent.messages⟩
      dsimp only
      by_cases own : replica = receiver
      · subst own
        rw [update_self, ← Bool.not_eq_true, CrdtStore.setContains_delivered,
          absent.replicas replica, absent.messages message sender found fresh]
        exact not_or.mpr ⟨Bool.false_ne_true, Bool.false_ne_true⟩
      · rw [update_of_ne own]
        exact absent.replicas replica

theorem absent_exchange (absent : ∀ replica, (net.store replica).setContains key element = false)
    (round : Round Replica) (replica : Replica) :
    ((net.exchange round).store replica).setContains key element = false := by
  have initially : net.Absent key element net.messages.length := by
    refine ⟨absent, fun message sender found recent => ?_⟩
    rw [getElem?_eq_none recent] at found
    cases found
  exact (Run.invariant (Absent key element net.messages.length)
    (fun _ _ absent fresh => absent.step fresh) initially
    (net.fresh_exchange round)).replicas replica

theorem not_forgets_of_contains [Fintype Replica] (replica : Replica)
    (held : (net.store replica).setContains key element = true) : ¬ net.Forgets key element := by
  rintro ⟨enough, forgets⟩
  obtain ⟨round, complete⟩ := Round.exists_allToAll Replica
  have lost := forgets (List.replicate enough round) length_replicate.ge
    (fun other member => eq_of_mem_replicate member ▸ complete) replica
  have kept : ((Run.after exchange net (List.replicate enough round)).store replica).setContains
      key element = true :=
    Run.invariant_of_step
      (fun net : SetNet Replica => (net.store replica).setContains key element = true)
      (fun _ round held => contains_exchange round held) held _
  exact Bool.false_ne_true (lost.symm.trans kept)

/-- **When a removal lasts.** In any run, enough rounds of exchanges after a removal make every
replica forget the element exactly if no replica holds it when the rounds begin. -/
theorem removal_lasts_iff [Fintype Replica] (nodeId : Replica → NodeId) (start : Replica → ℕ)
    (key element : String) (remover : Replica) (before later : List (SetNetAction Replica)) :
    let net := Run.after step (initial nodeId start)
      (before ++ .remove remover key element :: later)
    net.Forgets key element ↔ ∀ replica, (net.store replica).setContains key element = false := by
  intro net
  constructor
  · intro forgets replica
    rw [← Bool.not_eq_true]
    exact fun held => not_forgets_of_contains replica held forgets
  · intro absent
    refine ⟨0, fun rounds _ _ => ?_⟩
    exact Run.invariant_of_step
      (fun net : SetNet Replica => ∀ replica, (net.store replica).setContains key element = false)
      (fun _ round absent => absent_exchange absent round) absent rounds

/-- Replica `true` adds an element and sends it to replica `false`. It removes the element, no
one adds it again, and yet it does not go away. -/
theorem removed_element_returns :
    let net := Run.after step (initial Bool.toNat fun _ => 0)
      ([.add true "tags" "red", .generate true, .deliver 0 false fun _ => 0] ++
        [.remove true "tags" "red"])
    (net.store true).setContains "tags" "red" = false ∧ ¬ net.Forgets "tags" "red" := by
  refine ⟨by decide, not_forgets_of_contains false ?_⟩
  decide

end SetNet

end Warp.Store
