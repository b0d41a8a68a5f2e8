import Mathlib.Algebra.Order.BigOperators.Group.Finset
import Warp.Foundation.Contribution
import Warp.Store.CrdtStore

/-! # Replication of counters

Replicas update counters and deliver deltas to one another, in any order and any number of times. A
delta carries the count of one node only, and a positive-negative counter exports the sum over all
nodes as that count. A delivery merges the sender's state in full only if everything else the sender
holds is known to the receiver.

As long as each step meets such conditions, the counts refine replicated contributions
(`CounterNet.contributions_step`) and lose and invent nothing (`counters_lose_nothing`).
-/

namespace Warp.Store

open Warp.Crdt List Function GCounter FullState

inductive CounterUpdate where
  | gIncrement (key : String) (amount : ℕ)
  | pnIncrement (key : String)
  | pnDecrement (key : String)

namespace CrdtStore

def updateCounter (store : CrdtStore) : CounterUpdate → CrdtStore
  | .gIncrement key amount => store.gCounterIncrementBy key amount
  | .pnIncrement key => store.pnCounterIncrement key
  | .pnDecrement key => store.pnCounterDecrement key

end CrdtStore

open CrdtStore

section Counts

def countIn (counter : Option GCounter) (node : NodeId) : ℕ :=
  (counter.map fun counter => counter.nodeValue node).getD 0

def receiveCount (counter : Option GCounter) (node : NodeId) (value : ℕ) : GCounter :=
  let remote := (GCounter.new node).incrementBy value
  counter.elim remote fun counter => counter.merge remote

@[simp] theorem countIn_none (node : NodeId) : countIn none node = 0 := rfl

@[simp] theorem countIn_some (counter : GCounter) (node : NodeId) :
    countIn (some counter) node = counter.nodeValue node := rfl

variable (counter : Option GCounter) (node query : NodeId)

theorem countIn_receiveCount (value : ℕ) (fits : value < u64Modulus) :
    countIn (some (receiveCount counter node value)) query =
      max (countIn counter query) (if query = node then value else 0) := by
  have remote : ((GCounter.new node).incrementBy value).nodeValue query =
      if query = node then value else 0 := by
    rw [nodeValue_incrementBy _ _ _ (by simpa [GCounter.localValue] using fits),
      nodeValue_new, Nat.zero_add]
    rfl
  cases counter with
  | none => simpa [receiveCount] using remote
  | some counter => simp [receiveCount, remote]

theorem countIn_incrementBy (amount : ℕ) (owned : ∀ present ∈ counter, present.nodeId = node)
    (fits : countIn counter node + amount < u64Modulus) :
    countIn (some ((counter.getD (GCounter.new node)).incrementBy amount)) query =
      countIn counter query + if query = node then amount else 0 := by
  cases counter with
  | none =>
    simp only [Option.getD_none, countIn_some, countIn_none] at fits ⊢
    rw [nodeValue_incrementBy _ _ _ (by simpa [GCounter.localValue] using fits), nodeValue_new]
    rfl
  | some counter =>
    obtain rfl := owned counter rfl
    exact nodeValue_incrementBy counter amount query fits

/-- Receiving one node's count merges a whole counter if that is what the sender
has counted for the node and the receiver knows its other counts. -/
theorem countIn_received (counter sender : Option GCounter) (exported : GCounter → ℕ)
    (query : NodeId) (genuine : ∀ sent ∈ sender, exported sent = sent.localValue)
    (fits : ∀ node, countIn sender node < u64Modulus)
    (carried : ∀ sent ∈ sender, ∀ node, node ≠ sent.nodeId →
      sent.nodeValue node ≤ countIn counter node) :
    countIn ((sender.map fun sent => receiveCount counter sent.nodeId (exported sent)).or counter)
        query = max (countIn counter query) (countIn sender query) := by
  cases sender with
  | none => simp
  | some sent =>
    have own : exported sent = sent.localValue := genuine sent rfl
    have small : sent.localValue < u64Modulus := fits sent.nodeId
    simp only [Option.map_some, Option.some_or, own]
    rw [countIn_receiveCount _ _ _ _ small, countIn_some]
    by_cases same : query = sent.nodeId
    · rw [if_pos same, same]
      rfl
    · rw [if_neg same, max_eq_left (Nat.zero_le _), max_eq_left (carried sent rfl query same)]

theorem GCounter.value_eq_localValue (counter : GCounter)
    (alone : ∀ node, node ≠ counter.nodeId → counter.nodeValue node = 0)
    (fits : counter.localValue < u64Modulus) : counter.value = counter.localValue := by
  rw [counter.value_eq_sum {counter.nodeId}, Finset.sum_singleton]
  · exact Nat.mod_eq_of_lt fits
  · intro node other
    exact alone node (by simpa using other)

end Counts

section Delivery

def receiveG (table : Table String GCounter) : CrdtUpdate → Table String GCounter
  | .gCounterIncrement key node value =>
    table.insert key (receiveCount (table.lookup key) node value)
  | _ => table

def receivePN (table : Table String PNCounter) : CrdtUpdate → Table String PNCounter
  | .pnCounterUpdate key node positive negative =>
    let remote := ((PNCounter.new node).incrementBy positive).decrementBy negative
    table.insert key ((table.lookup key).elim remote fun counter => counter.merge remote)
  | _ => table

theorem applyUpdate_counters (store : CrdtStore) (now : ℕ) (update : CrdtUpdate) :
    (store.applyUpdate now update).1.nodeId = store.nodeId ∧
      (store.applyUpdate now update).1.gCounters = receiveG store.gCounters update ∧
      (store.applyUpdate now update).1.pnCounters = receivePN store.pnCounters update := by
  cases update with
  | register key value timestamp =>
    simp only [applyUpdate, applyRegister]
    split <;> exact ⟨rfl, rfl, rfl⟩
  | setAdd key element dot =>
    simp only [applyUpdate, applySetAdd]
    split
    · split <;> exact ⟨rfl, rfl, rfl⟩
    · exact ⟨rfl, rfl, rfl⟩
  | setRemove key element =>
    simp only [applyUpdate, applySetRemove]
    split
    · split <;> exact ⟨rfl, rfl, rfl⟩
    · exact ⟨rfl, rfl, rfl⟩
  | gCounterIncrement key node value =>
    simp only [applyUpdate, applyGCounter, receiveG, receiveCount]
    cases store.gCounters.lookup key <;> exact ⟨rfl, rfl, rfl⟩
  | pnCounterUpdate key node positive negative =>
    simp only [applyUpdate, applyPNCounter, receivePN]
    cases store.pnCounters.lookup key <;> exact ⟨rfl, rfl, rfl⟩

theorem applyUpdates_counters (store : CrdtStore) (now : ℕ → ℕ) (updates : List CrdtUpdate) :
    (store.applyUpdates now updates).1.nodeId = store.nodeId ∧
      (store.applyUpdates now updates).1.gCounters = updates.foldl receiveG store.gCounters ∧
      (store.applyUpdates now updates).1.pnCounters = updates.foldl receivePN store.pnCounters := by
  induction updates generalizing store now with
  | nil => exact ⟨rfl, rfl, rfl⟩
  | cons update rest ih =>
    obtain ⟨node, gCounters, pnCounters⟩ := applyUpdate_counters store (now 0) update
    have later := ih (store.applyUpdate (now 0) update).1 (fun place => now (place + 1))
    rw [node, gCounters, pnCounters] at later
    exact later

theorem foldl_unchanged {State Update : Type*} (step : State → Update → State)
    (updates : List Update) (unchanged : ∀ update ∈ updates, ∀ state, step state update = state)
    (state : State) : updates.foldl step state = state := by
  induction updates with
  | nil => rfl
  | cons update rest ih =>
    rw [foldl_cons, unchanged update mem_cons_self]
    exact ih (forall_mem_of_forall_mem_cons unchanged)

/-- What a full state does to a part of the store that registers and sets do not
touch. -/
theorem foldl_updates {State : Type*} (step : State → CrdtUpdate → State)
    (registers : ∀ state key value timestamp, step state (.register key value timestamp) = state)
    (sets : ∀ state key element dot, step state (.setAdd key element dot) = state)
    (full : FullState) (state : State) :
    full.updates.foldl step state =
      full.pnCounterUpdates.foldl step (full.gCounterUpdates.foldl step state) := by
  unfold updates
  rw [foldl_append, foldl_append, foldl_append,
    foldl_unchanged step full.registerUpdates, foldl_unchanged step full.setUpdates]
  · intro update member state
    simp only [setUpdates, mem_flatMap, mem_map] at member
    obtain ⟨_, _, _, _, rfl⟩ := member
    exact sets _ _ _ _
  · intro update member state
    simp only [registerUpdates, mem_map] at member
    obtain ⟨_, _, rfl⟩ := member
    exact registers _ _ _ _

variable (store sender : CrdtStore) (now : ℕ → ℕ) (key : String)

theorem lookup_gCounters_delivered :
    (store.applyDelta now sender.generateDelta).1.gCounters.lookup key =
      ((sender.gCounters.lookup key).map fun sent =>
        receiveCount (store.gCounters.lookup key) sent.nodeId sent.localValue).or
          (store.gCounters.lookup key) := by
  have applied : (store.applyDelta now sender.generateDelta).1.gCounters =
      sender.exportState.updates.foldl receiveG store.gCounters :=
    (applyUpdates_counters store now sender.exportState.updates).2.1
  have exported : sender.exportState.gCounterUpdates =
      sender.gCounters.entries.map fun entry =>
        .gCounterIncrement entry.1 entry.2.nodeId entry.2.localValue := by
    simp [gCounterUpdates, exportState, flatMap_map, ← map_eq_flatMap]
  have others : ∀ update ∈ sender.exportState.pnCounterUpdates, ∀ table,
      receiveG table update = table := by
    intro update member table
    simp only [pnCounterUpdates, mem_flatMap, mem_map] at member
    obtain ⟨_, _, _, _, rfl⟩ := member
    rfl
  rw [applied, foldl_updates receiveG (fun _ _ _ _ => rfl) (fun _ _ _ _ => rfl),
    foldl_unchanged receiveG _ others, exported, foldl_map]
  exact Table.lookup_foldl_insert
    (fun old sent => receiveCount old sent.nodeId sent.localValue) sender.gCounters.entries
    sender.gCounters.nodupKeys store.gCounters key

theorem lookup_pnCounters_delivered :
    (store.applyDelta now sender.generateDelta).1.pnCounters.lookup key =
      ((sender.pnCounters.lookup key).map fun sent =>
        let remote := ((PNCounter.new sent.nodeId).incrementBy sent.totalIncrements).decrementBy
          sent.totalDecrements
        (store.pnCounters.lookup key).elim remote fun counter => counter.merge remote).or
          (store.pnCounters.lookup key) := by
  have applied : (store.applyDelta now sender.generateDelta).1.pnCounters =
      sender.exportState.updates.foldl receivePN store.pnCounters :=
    (applyUpdates_counters store now sender.exportState.updates).2.2
  have exported : sender.exportState.pnCounterUpdates =
      sender.pnCounters.entries.map fun entry =>
        .pnCounterUpdate entry.1 entry.2.nodeId entry.2.totalIncrements
          entry.2.totalDecrements := by
    simp [pnCounterUpdates, exportState, flatMap_map, ← map_eq_flatMap]
  have others : ∀ update ∈ sender.exportState.gCounterUpdates, ∀ table,
      receivePN table update = table := by
    intro update member table
    simp only [gCounterUpdates, mem_flatMap, mem_map] at member
    obtain ⟨_, _, _, _, rfl⟩ := member
    rfl
  rw [applied, foldl_updates receivePN (fun _ _ _ _ => rfl) (fun _ _ _ _ => rfl),
    foldl_unchanged receivePN _ others, exported, foldl_map]
  exact Table.lookup_foldl_insert
    (fun old sent =>
      let remote := ((PNCounter.new sent.nodeId).incrementBy sent.totalIncrements).decrementBy
        sent.totalDecrements
      old.elim remote fun counter => counter.merge remote)
    sender.pnCounters.entries sender.pnCounters.nodupKeys store.pnCounters key

theorem nodeId_delivered :
    (store.applyDelta now sender.generateDelta).1.nodeId = store.nodeId :=
  (applyUpdates_counters store now sender.exportState.updates).1

end Delivery

section Views

/-- The operation counts for the replica: if it is on the key, the counter there
counts for the replica's own node or does not exist yet. -/
def CounterUpdate.Owned (key : String) (store : CrdtStore) : CounterUpdate → Prop
  | .gIncrement updated _ =>
    updated = key → ∀ counter ∈ store.gCounters.lookup key, counter.nodeId = store.nodeId
  | .pnIncrement updated | .pnDecrement updated =>
    updated = key → ∀ counter ∈ store.pnCounters.lookup key, counter.nodeId = store.nodeId

/-- The delta of a sender carries all that the receiver does not know of the
counters under a key: the receiver knows the counts of the other nodes of the
g-counter, and no other node has contributed to the PN-counter. -/
structure Carried (key : String) (sender receiver : CrdtStore) : Prop where
  gCounter : ∀ sent ∈ sender.gCounters.lookup key, ∀ node, node ≠ sent.nodeId →
    sent.nodeValue node ≤ countIn (receiver.gCounters.lookup key) node
  pnCounter : ∀ sent ∈ sender.pnCounters.lookup key, ∀ node, node ≠ sent.nodeId →
    sent.positive.nodeValue node = 0 ∧ sent.negative.nodeValue node = 0

/-- Counts of nodes that every replica keeps under a key, and what an operation
contributes to them. -/
structure CountView (key : String) where
  counter : CrdtStore → Option GCounter
  amount : CounterUpdate → ℕ
  initially : ∀ node start, counter (CrdtStore.new node start) = none
  updated : ∀ (store : CrdtStore) (update : CounterUpdate) (node : NodeId),
    update.Owned key store →
    countIn (counter store) store.nodeId + amount update < u64Modulus →
    countIn (counter (store.updateCounter update)) node =
      countIn (counter store) node + if node = store.nodeId then amount update else 0
  delivered : ∀ (store sender : CrdtStore) (now : ℕ → ℕ) (node : NodeId),
    Carried key sender store →
    (∀ node, countIn (counter sender) node < u64Modulus) →
    countIn (counter (store.applyDelta now sender.generateDelta).1) node =
      max (countIn (counter store) node) (countIn (counter sender) node)

def gAmount (key : String) : CounterUpdate → ℕ
  | .gIncrement updated amount => if updated = key then amount else 0
  | _ => 0

inductive Side where
  | increments
  | decrements
  deriving DecidableEq

def Side.part : Side → PNCounter → GCounter
  | .increments => PNCounter.positive
  | .decrements => PNCounter.negative

/-- What an operation adds to the increments or decrements under a key. -/
def pnAmount (key : String) (side : Side) : CounterUpdate → ℕ
  | .pnIncrement updated => if updated = key ∧ side = .increments then 1 else 0
  | .pnDecrement updated => if updated = key ∧ side = .decrements then 1 else 0
  | .gIncrement _ _ => 0

def gView (key : String) : CountView key where
  counter store := store.gCounters.lookup key
  amount := gAmount key
  initially _ _ := AList.lookup_empty key
  updated := by
    intro store update node owned fits
    cases update with
    | gIncrement updated amount =>
      simp only [CrdtStore.updateCounter, CrdtStore.gCounterIncrementBy,
        CrdtStore.countCounterOp, gAmount] at fits ⊢
      rw [Table.lookup_insert_eq]
      by_cases same : key = updated
      · subst same
        rw [if_pos rfl] at fits
        rw [if_pos rfl, if_pos rfl]
        exact countIn_incrementBy _ _ _ _ (owned rfl) fits
      · rw [if_neg same, if_neg (Ne.symm same), ite_self, Nat.add_zero]
    | pnIncrement updated => simp [CrdtStore.updateCounter, CrdtStore.pnCounterIncrement,
        CrdtStore.countCounterOp, gAmount]
    | pnDecrement updated => simp [CrdtStore.updateCounter, CrdtStore.pnCounterDecrement,
        CrdtStore.countCounterOp, gAmount]
  delivered := by
    intro store sender now node carried fits
    rw [lookup_gCounters_delivered]
    exact countIn_received _ _ _ _ (fun _ _ => rfl) fits carried.gCounter

variable (side : Side)

@[simp] theorem Side.nodeId_part (counter : PNCounter) :
    (side.part counter).nodeId = counter.nodeId := by
  cases side with
  | increments => rfl
  | decrements => exact counter.sameNode

theorem Side.map_part_received (counter sender : Option PNCounter) :
    (((sender.map fun sent =>
        let remote := ((PNCounter.new sent.nodeId).incrementBy sent.totalIncrements).decrementBy
          sent.totalDecrements
        counter.elim remote fun counter => counter.merge remote).or counter).map side.part) =
      ((sender.map side.part).map fun sent =>
        receiveCount (counter.map side.part) sent.nodeId sent.value).or
          (counter.map side.part) := by
  cases sender with
  | none => simp
  | some sent =>
    cases side with
    | increments => cases counter <;> rfl
    | decrements =>
      simp only [Option.map_some, Option.some_or, Option.some.injEq]
      rw [Side.nodeId_part]
      cases counter <;> rfl

theorem Side.countIn_part_insert (side kind : Side) (step : PNCounter → PNCounter)
    (changed : ∀ counter, side.part (step counter) =
      if side = kind then (side.part counter).incrementBy 1 else side.part counter)
    (table : Table String PNCounter) (key updated : String) (node query : NodeId)
    (owned : updated = key → ∀ counter ∈ table.lookup key, counter.nodeId = node)
    (fits : countIn ((table.lookup key).map side.part) node +
      (if updated = key ∧ side = kind then 1 else 0) < u64Modulus) :
    countIn (((table.insert updated (step ((table.lookup updated).getD
        (PNCounter.new node)))).lookup key).map side.part) query =
      countIn ((table.lookup key).map side.part) query +
        if query = node then (if updated = key ∧ side = kind then 1 else 0) else 0 := by
  rw [Table.lookup_insert_eq]
  by_cases same : updated = key
  · subst same
    have sides : side.part ((table.lookup updated).getD (PNCounter.new node)) =
        ((table.lookup updated).map side.part).getD (GCounter.new node) := by
      cases table.lookup updated with
      | none => cases side <;> rfl
      | some counter => rfl
    simp only [true_and, ↓reduceIte, Option.map_some] at fits ⊢
    rw [changed, sides]
    by_cases touched : side = kind
    · rw [if_pos touched] at fits ⊢
      rw [if_pos touched]
      refine countIn_incrementBy _ _ _ _ (fun part member => ?_) fits
      obtain ⟨present, found, rfl⟩ := Option.mem_map.mp member
      rw [Side.nodeId_part]
      exact owned rfl present found
    · rw [if_neg touched, if_neg touched, ite_self, Nat.add_zero]
      cases table.lookup updated <;> simp
  · rw [if_neg (Ne.symm same)]
    simp [same]

def pnView (key : String) (side : Side) : CountView key where
  counter store := (store.pnCounters.lookup key).map side.part
  amount := pnAmount key side
  initially _ _ := by
    simp [CrdtStore.new]
  updated := by
    intro store update node owned fits
    cases update with
    | gIncrement updated amount => simp [CrdtStore.updateCounter, CrdtStore.gCounterIncrementBy,
        CrdtStore.countCounterOp, pnAmount]
    | pnIncrement updated =>
      refine side.countIn_part_insert .increments PNCounter.increment ?_ _ _ _ _ _ owned fits
      intro counter
      cases side <;> rfl
    | pnDecrement updated =>
      refine side.countIn_part_insert .decrements PNCounter.decrement ?_ _ _ _ _ _ owned fits
      intro counter
      cases side <;> rfl
  delivered := by
    intro store sender now node carried fits
    rw [lookup_pnCounters_delivered, side.map_part_received]
    have alone : ∀ sent ∈ (sender.pnCounters.lookup key).map side.part, ∀ node,
        node ≠ sent.nodeId → sent.nodeValue node = 0 := by
      intro sent member node other
      obtain ⟨counter, found, rfl⟩ := Option.mem_map.mp member
      rw [Side.nodeId_part] at other
      have zero := carried.pnCounter counter found node other
      cases side with
      | increments => exact zero.1
      | decrements => exact zero.2
    refine countIn_received _ _ _ _ (fun sent member => ?_) fits fun sent member node other => ?_
    · refine GCounter.value_eq_localValue sent (alone sent member) ?_
      have small := fits sent.nodeId
      rw [Option.mem_def.mp member] at small
      exact small
    · rw [alone sent member node other]
      exact Nat.zero_le _

end Views

/-- A generated delta, by the state it was generated from, with the number of
operations of each replica that this state includes. -/
structure CounterMessage (Replica : Type*) where
  sender : CrdtStore
  seen : Replica → ℕ

/-- The stores of all replicas, the operations each has issued, oldest first, how
many operations of each replica the state of a replica includes, by itself or
through deliveries, and all deltas generated so far. -/
structure CounterNet (Replica : Type*) where
  store : Replica → CrdtStore
  issued : Replica → List CounterUpdate
  seen : Replica → Replica → ℕ
  messages : List (CounterMessage Replica)

/-- One step of the replicas: an operation, the generation of a delta, or the
delivery of one generated before. -/
inductive CounterAction (Replica : Type*) where
  | update (replica : Replica) (update : CounterUpdate)
  | generate (replica : Replica)
  | deliver (message : ℕ) (receiver : Replica) (now : ℕ → ℕ)

namespace CounterNet

variable {Replica : Type*}

def initial (nodeId : Replica → NodeId) (start : Replica → ℕ) : CounterNet Replica where
  store replica := CrdtStore.new (nodeId replica) (start replica)
  issued _ := []
  seen _ _ := 0
  messages := []

/-- Every replica has received a state that transitively includes every replica's
last operation. -/
def Complete (net : CounterNet Replica) : Prop :=
  ∀ replica origin, net.seen replica origin = (net.issued origin).length

/-- The sum over all operations issued of what they contribute. -/
def total [Fintype Replica] (net : CounterNet Replica) (amount : CounterUpdate → ℕ) : ℕ :=
  ∑ origin, ((net.issued origin).map amount).sum

variable [DecidableEq Replica]

/-- One step. A delivery of a delta that was never generated does nothing. -/
def step (net : CounterNet Replica) : CounterAction Replica → CounterNet Replica
  | .update replica update =>
    { net with
      store := Function.update net.store replica ((net.store replica).updateCounter update)
      issued := Function.update net.issued replica (net.issued replica ++ [update])
      seen := Function.update net.seen replica
        (Function.update (net.seen replica) replica ((net.issued replica).length + 1)) }
  | .generate replica =>
    { net with messages := net.messages ++ [⟨net.store replica, net.seen replica⟩] }
  | .deliver message receiver now =>
    match net.messages[message]? with
    | some ⟨sender, seen⟩ =>
      { net with
        store := Function.update net.store receiver
          ((net.store receiver).applyDelta now sender.generateDelta).1
        seen := Function.update net.seen receiver (net.seen receiver ⊔ seen) }
    | none => net

/-- The condition on one step for the counters under a key: an operation counts
for the replica that issues it, and a delivered delta carries all that the receiver
does not know. -/
def Guard (key : String) (net : CounterNet Replica) : CounterAction Replica → Prop
  | .update replica update => update.Owned key (net.store replica)
  | .generate _ => True
  | .deliver message receiver _ =>
    ∀ sent ∈ net.messages[message]?, Carried key sent.sender (net.store receiver)

variable {key : String} (view : CountView key) (nodeId : Replica → NodeId)

/-- A state of the replicas as replicated contributions to one kind of count. -/
def contributions (net : CounterNet Replica) : Contribution.Net Replica where
  held replica origin := countIn (view.counter (net.store replica)) (nodeId origin)
  seen := net.seen
  issued origin := (net.issued origin).map view.amount
  published := net.messages.map fun message =>
    ⟨fun origin => countIn (view.counter message.sender) (nodeId origin), message.seen⟩

def contribution : CounterAction Replica → Contribution.Action Replica
  | .update replica update => .contribute replica (view.amount update)
  | .generate replica => .publish replica
  | .deliver message receiver _ => .deliver message receiver

/-- What the counts satisfy as long as none overflows: they are sound contributions
and only replicas contribute. -/
structure Tracks (net : CounterNet Replica) : Prop where
  nodes : ∀ replica, (net.store replica).nodeId = nodeId replica
  sound : (net.contributions view nodeId).Sound
  replicas : ∀ replica node, node ∉ Set.range nodeId →
    countIn (view.counter (net.store replica)) node = 0
  messages : ∀ message ∈ net.messages, ∀ node, node ∉ Set.range nodeId →
    countIn (view.counter message.sender) node = 0

variable {view nodeId} (net : CounterNet Replica) (amount : CounterUpdate → ℕ)

omit [DecidableEq Replica] in
theorem Tracks.initial (start : Replica → ℕ) :
    (CounterNet.initial nodeId start).Tracks view nodeId := by
  have empty (replica : Replica) (node : NodeId) :
      countIn (view.counter (new (nodeId replica) (start replica))) node = 0 := by
    rw [view.initially, countIn_none]
  refine ⟨fun _ => rfl, ⟨fun replica origin => ?_, ?_, fun _ => rfl⟩,
    fun replica node _ => empty replica node, ?_⟩
  · exact ⟨Nat.zero_le _, Nat.zero_le _, (empty replica (nodeId origin)).le⟩
  · intro knowledge member
    cases member
  · intro message member
    cases member

theorem nodeId_updateCounter (store : CrdtStore) (update : CounterUpdate) :
    (store.updateCounter update).nodeId = store.nodeId := by
  cases update <;> rfl

theorem issued_step_sum (replica : Replica) (update : CounterUpdate) :
    (((net.step (.update replica update)).issued replica).map amount).sum =
      ((net.issued replica).map amount).sum + amount update := by
  simp [step]

variable [Fintype Replica]

omit [DecidableEq Replica] in
theorem issued_le_total (origin : Replica) :
    ((net.issued origin).map amount).sum ≤ net.total amount :=
  Finset.single_le_sum (f := fun origin => ((net.issued origin).map amount).sum)
    (fun _ _ => Nat.zero_le _) (Finset.mem_univ origin)

theorem total_le_step (action : CounterAction Replica) :
    net.total amount ≤ (net.step action).total amount := by
  cases action with
  | update replica update =>
    refine Finset.sum_le_sum fun origin _ => ?_
    by_cases same : origin = replica
    · subst same
      rw [issued_step_sum]
      exact Nat.le_add_right _ _
    · simp [step, update_of_ne same]
  | generate replica => exact le_rfl
  | deliver message receiver now =>
    simp only [step]
    split <;> exact le_rfl

theorem Tracks.room {net : CounterNet Replica} (tracks : net.Tracks view nodeId)
    {replica : Replica} {update : CounterUpdate}
    (fits : (net.step (.update replica update)).total view.amount < u64Modulus) :
    countIn (view.counter (net.store replica)) (net.store replica).nodeId +
      view.amount update < u64Modulus := by
  have own := (tracks.sound.replicas replica replica).2.2
  rw [tracks.nodes replica]
  refine lt_of_le_of_lt ?_ ((issued_le_total _ view.amount replica).trans_lt fits)
  rw [issued_step_sum]
  exact Nat.add_le_add_right own _

omit [DecidableEq Replica] in
theorem Tracks.sent_lt {net : CounterNet Replica} (tracks : net.Tracks view nodeId)
    (fits : net.total view.amount < u64Modulus) {message : CounterMessage Replica}
    (member : message ∈ net.messages) (node : NodeId) :
    countIn (view.counter message.sender) node < u64Modulus := by
  by_cases inside : node ∈ Set.range nodeId
  · obtain ⟨origin, rfl⟩ := inside
    have sound := tracks.sound.publications _ (mem_map_of_mem member) origin
    exact (sound.2.2.trans (net.issued_le_total view.amount origin)).trans_lt fits
  · rw [tracks.messages message member node inside]
    exact (Nat.zero_le _).trans_lt fits

section
variable (injective : Function.Injective nodeId) {net : CounterNet Replica}
  (tracks : net.Tracks view nodeId) {action : CounterAction Replica}
  (guarded : net.Guard key action) (fits : (net.step action).total view.amount < u64Modulus)
include injective tracks guarded fits

/-- **One step refines one step of replicated contributions**, if it meets the
condition and nothing overflows. -/
theorem contributions_step :
    (net.step action).contributions view nodeId =
      (net.contributions view nodeId).step (contribution view action) := by
  -- what all replicas hold changes with the store of one of them
  have held := comp_update
    (fun store origin => countIn (view.counter store) (nodeId origin)) net.store
  cases action with
  | update replica update =>
    have row : (fun origin => countIn (view.counter ((net.store replica).updateCounter update))
        (nodeId origin)) = Function.update ((net.contributions view nodeId).held replica) replica
          ((net.contributions view nodeId).held replica replica + view.amount update) := by
      funext origin
      rw [view.updated _ _ _ guarded (tracks.room fits), tracks.nodes replica]
      by_cases own : origin = replica
      · rw [own, if_pos rfl, update_self]
        rfl
      · rw [if_neg fun equal => own (injective equal), update_of_ne own]
        rfl
    apply Contribution.Net.ext
    · exact (held replica _).trans (congrArg _ row)
    · simp [contributions, step, contribution, Contribution.Net.step]
    · refine (comp_update (List.map view.amount) net.issued replica _).trans ?_
      rw [map_append]
      rfl
    · rfl
  | generate replica =>
    simp [contributions, step, contribution, Contribution.Net.step, Contribution.Net.knowledge]
  | deliver message receiver now =>
    cases found : net.messages[message]? with
    | none => simp [contributions, step, contribution, Contribution.Net.step, found]
    | some sent =>
      have small := tracks.sent_lt ((total_le_step net view.amount _).trans_lt fits)
        (mem_of_getElem? found)
      have row : (fun origin => countIn (view.counter ((net.store receiver).applyDelta now
          sent.sender.generateDelta).1) (nodeId origin)) =
          (net.contributions view nodeId).held receiver ⊔
            fun origin => countIn (view.counter sent.sender) (nodeId origin) := by
        funext origin
        exact view.delivered _ _ now _ (guarded _ found) small
      have published : (net.contributions view nodeId).published[message]? =
          some ⟨fun origin => countIn (view.counter sent.sender) (nodeId origin), sent.seen⟩ := by
        simp [contributions, found]
      simp only [step, found, contribution, Contribution.Net.step, published]
      apply Contribution.Net.ext
      · exact (held receiver _).trans (congrArg _ row)
      · rfl
      · rfl
      · rfl

theorem Tracks.step : (net.step action).Tracks view nodeId := by
  have sound : ((net.step action).contributions view nodeId).Sound := by
    rw [contributions_step injective tracks guarded fits]
    exact tracks.sound.step (contribution view action)
  cases action with
  | update replica update =>
    refine ⟨fun other => ?_, sound, fun other node outside => ?_, tracks.messages⟩
    · by_cases same : other = replica
      · subst same
        simpa [CounterNet.step, nodeId_updateCounter] using tracks.nodes other
      · simpa [CounterNet.step, update_of_ne same] using tracks.nodes other
    · by_cases same : other = replica
      · subst same
        have foreign : node ≠ (net.store other).nodeId := by
          rintro rfl
          exact outside ⟨other, (tracks.nodes other).symm⟩
        have room := tracks.room fits
        simp only [CounterNet.step, update_self]
        rw [view.updated _ _ _ guarded room, if_neg foreign, Nat.add_zero]
        exact tracks.replicas other node outside
      · simpa [CounterNet.step, update_of_ne same] using tracks.replicas other node outside
  | generate replica =>
    refine ⟨tracks.nodes, sound, tracks.replicas, forall_mem_append.mpr
      ⟨tracks.messages, forall_mem_singleton.mpr (tracks.replicas replica)⟩⟩
  | deliver message receiver now =>
    cases found : net.messages[message]? with
    | none => simpa [CounterNet.step, found] using tracks
    | some sent =>
      obtain ⟨sender, seen⟩ := sent
      have member : (⟨sender, seen⟩ : CounterMessage Replica) ∈ net.messages :=
        mem_of_getElem? found
      have small := tracks.sent_lt ((total_le_step net view.amount _).trans_lt fits) member
      simp only [CounterNet.step, found] at sound ⊢
      refine ⟨fun other => ?_, sound, fun other node outside => ?_, tracks.messages⟩ <;>
        dsimp only
      · by_cases same : other = receiver
        · subst same
          simpa [nodeId_delivered] using tracks.nodes other
        · simpa [update_of_ne same] using tracks.nodes other
      · by_cases same : other = receiver
        · subst same
          rw [update_self,
            view.delivered _ _ now node (guarded _ found) small,
            tracks.replicas other node outside, tracks.messages _ member node outside, max_self]
        · rw [update_of_ne same]
          exact tracks.replicas other node outside

end

variable (view) in
theorem Tracks.run (injective : Function.Injective nodeId) (start : Replica → ℕ)
    {actions : List (CounterAction Replica)}
    (guarded : Run.Guarded CounterNet.step (Guard key) (CounterNet.initial nodeId start) actions)
    (fits : (Run.after CounterNet.step (CounterNet.initial nodeId start) actions).total
      view.amount < u64Modulus) :
    (Run.after CounterNet.step (CounterNet.initial nodeId start) actions).Tracks view nodeId := by
  refine Run.invariant (fun net => net.total view.amount < u64Modulus → net.Tracks view nodeId)
    ?_ (fun _ => Tracks.initial start) guarded fits
  intro net action before guard fitsAfter
  have fitsBefore := (total_le_step net view.amount action).trans_lt fitsAfter
  exact (before fitsBefore).step injective guard fitsAfter

omit [DecidableEq Replica] in
theorem Tracks.value_eq_total (injective : Function.Injective nodeId) {net : CounterNet Replica}
    (tracks : net.Tracks view nodeId) (complete : net.Complete)
    (fits : net.total view.amount < u64Modulus) (replica : Replica) :
    ((view.counter (net.store replica)).map GCounter.value).getD 0 = net.total view.amount := by
  have counted (origin : Replica) : countIn (view.counter (net.store replica)) (nodeId origin) =
      ((net.issued origin).map view.amount).sum := by
    refine (tracks.sound.replicas replica).eq_sum ?_
    simpa [contributions, Contribution.Net.knowledge] using complete replica origin
  have sum : ∑ node ∈ Finset.univ.image nodeId,
      countIn (view.counter (net.store replica)) node = net.total view.amount := by
    rw [Finset.sum_image fun _ _ _ _ equal => injective equal]
    exact Finset.sum_congr rfl fun origin _ => counted origin
  have outside := tracks.replicas replica
  cases present : view.counter (net.store replica) with
  | none =>
    rw [← sum, present]
    simp
  | some counter =>
    rw [present] at sum outside
    simp only [Option.map_some, Option.getD_some]
    rw [counter.value_eq_sum (Finset.univ.image nodeId), ← Nat.mod_eq_of_lt fits, ← sum]
    · rfl
    · intro node missing
      apply outside node
      rintro ⟨origin, equal⟩
      exact missing (Finset.mem_image.mpr ⟨origin, Finset.mem_univ origin, equal⟩)

end CounterNet

open CounterNet

variable {Replica : Type*} [DecidableEq Replica] [Fintype Replica]

/-- **Counters lose and invent nothing** in any run whose steps meet the condition:
once every replica's state includes every operation, every replica's counters have
the values issued. -/
theorem counters_lose_nothing (nodeId : Replica → NodeId) (distinct : Function.Injective nodeId)
    (start : Replica → ℕ) (key : String) (actions : List (CounterAction Replica))
    (guarded : Run.Guarded CounterNet.step (CounterNet.Guard key)
      (CounterNet.initial nodeId start) actions)
    (complete : (Run.after CounterNet.step (CounterNet.initial nodeId start) actions).Complete)
    (gFits : (Run.after CounterNet.step (CounterNet.initial nodeId start) actions).total
      (gAmount key) < 2 ^ 64)
    (pnFits : ∀ side, (Run.after CounterNet.step (CounterNet.initial nodeId start) actions).total
      (pnAmount key side) < 2 ^ 63) (replica : Replica) :
    let net := Run.after step (initial nodeId start) actions
    (net.store replica).gCounterValue key = net.total (gAmount key) ∧
      (net.store replica).pnCounterValue key =
        net.total (pnAmount key .increments) - net.total (pnAmount key .decrements) := by
  intro net
  have gValue := (CounterNet.Tracks.run (gView key) distinct start guarded
    gFits).value_eq_total distinct complete gFits replica
  have pnValue (side : Side) :=
    have fits := (pnFits side).trans (show (2 ^ 63 : ℕ) < u64Modulus by decide)
    (CounterNet.Tracks.run (pnView key side) distinct start guarded fits).value_eq_total distinct
      complete fits replica
  constructor
  · unfold gCounterValue
    cases found : (net.store replica).gCounters.lookup key <;>
      simpa [gView, net, found] using gValue
  · have increments := pnValue .increments
    have decrements := pnValue .decrements
    have incrementsFit := pnFits .increments
    have decrementsFit := pnFits .decrements
    unfold pnCounterValue
    simp only [pnView, Side.part, Option.map_map] at increments decrements
    cases found : (net.store replica).pnCounters.lookup key with
    | none =>
      simp only [net] at found ⊢
      simp only [found, Option.map_none, Option.getD_none] at increments decrements
      rw [← increments, ← decrements]
      rfl
    | some counter =>
      simp only [net] at found ⊢
      simp only [found, Option.map_some, Option.getD_some, Function.comp] at increments decrements
      rw [← increments] at incrementsFit ⊢
      rw [← decrements] at decrementsFit ⊢
      exact counter.value_eq_sub incrementsFit decrementsFit

/-- Two replicas that exchange one increment each. -/
theorem counters_lose_nothing_exchange :
    let actions : List (CounterAction Bool) :=
      [.update false (.gIncrement "hits" 5), .update true (.pnIncrement "hits"),
        .generate false, .generate true, .deliver 0 true fun _ => 0, .deliver 1 false fun _ => 0]
    let net := Run.after step (initial Bool.toNat fun _ => 0) actions
    (net.store true).gCounterValue "hits" = net.total (gAmount "hits") ∧
      (net.store true).pnCounterValue "hits" =
        net.total (pnAmount "hits" .increments) - net.total (pnAmount "hits" .decrements) := by
  intro actions net
  refine counters_lose_nothing Bool.toNat (by decide) (fun _ => 0) "hits" actions ?_ ?_
    (by decide) (fun side => by cases side <;> decide) true
  · refine ⟨?_, ?_, trivial, trivial, ?_, ?_, trivial⟩
    · intro _ counter present
      cases present
    · intro _ counter present
      cases present
    · intro sent found
      cases found
      refine ⟨fun counter present node other => ?_, fun counter present => ?_⟩
      · cases present
        exact (congrArg (Option.getD · 0) (AList.lookup_insert_ne other)).le
      · cases present
    · intro sent found
      cases found
      refine ⟨fun counter present => ?_, fun counter present node other => ?_⟩
      · cases present
      · cases present
        exact ⟨congrArg (Option.getD · 0) (AList.lookup_insert_ne other), rfl⟩
  · intro replica origin
    cases replica <;> cases origin <;> rfl

/-- A replica whose counter was created by a delta counts for the sender, and its
increments are lost; a replica that has received increments of a PN-counter exports
them as its own, and they are counted twice. -/
theorem counters_lose_and_invent :
    let lossy : List (CounterAction Bool) :=
      [.update false (.gIncrement "hits" 5), .generate false, .deliver 0 true fun _ => 0,
        .update false (.gIncrement "hits" 2), .update true (.gIncrement "hits" 3),
        .generate false, .generate true, .deliver 1 true fun _ => 0, .deliver 2 false fun _ => 0]
    let inventive : List (CounterAction Bool) :=
      [.update false (.pnIncrement "hits"), .update true (.pnIncrement "hits"), .generate false,
        .deliver 0 true fun _ => 0, .generate true, .deliver 1 false fun _ => 0]
    let lost := Run.after step (initial Bool.toNat fun _ => 0) lossy
    let invented := Run.after step (initial Bool.toNat fun _ => 0) inventive
    (lost.Complete ∧ lost.total (gAmount "hits") = 10 ∧
        ∀ replica, (lost.store replica).gCounterValue "hits" = 8) ∧
      invented.Complete ∧ invented.total (pnAmount "hits" .increments) = 2 ∧
        invented.total (pnAmount "hits" .decrements) = 0 ∧
        (invented.store false).pnCounterValue "hits" = 3 := by
  intro lossy inventive lost invented
  refine ⟨⟨?_, by decide, by decide⟩, ?_, by decide, by decide, by decide⟩
  · intro replica origin
    cases replica <;> cases origin <;> rfl
  · intro replica origin
    cases replica <;> cases origin <;> rfl

end Warp.Store
