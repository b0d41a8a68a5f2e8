import Warp.Crdt.Counter
import Warp.Crdt.LWWRegister
import Warp.Crdt.ORSet

/-! # The eventually consistent store

A store holds last-write-wins registers, observed-remove sets and counters, each
under a string key, and one clock. Its state is replicated by deltas: a single
update, or the full state that `CrdtStore.generateDelta` exports. Every reading of
the physical clock is an input of the operation that reads it.
-/

namespace Warp.Store

open Warp.Crdt

structure ObjectDataRef where
  key : String
  contentHash : Vector UInt8 32
  size : ℕ
  locations : List NodeId
  metadata : Table String String
  deriving DecidableEq

/-- The empty reference, which a delete writes as a tombstone. -/
instance : Inhabited ObjectDataRef :=
  ⟨{ key := "", contentHash := Vector.replicate 32 0, size := 0, locations := [], metadata := ∅ }⟩

inductive CrdtUpdate where
  | register (key : String) (value : ObjectDataRef) (timestamp : HLC)
  | setAdd (key element : String) (dot : Dot)
  | setRemove (key element : String)
  | gCounterIncrement (key : String) (nodeId : NodeId) (value : ℕ)
  | pnCounterUpdate (key : String) (nodeId : NodeId) (positive negative : ℕ)

structure FullState where
  registers : List (String × ObjectDataRef × HLC)
  sets : List (String × List (String × Dot))
  gCounters : List (String × List (NodeId × ℕ))
  pnCounters : List (String × List (NodeId × ℕ) × List (NodeId × ℕ))

inductive CrdtDelta where
  | update (update : CrdtUpdate)
  | fullState (state : FullState)

structure CrdtStoreStats where
  merges : ℕ := 0
  conflictsResolved : ℕ := 0
  registerOps : ℕ := 0
  setOps : ℕ := 0
  counterOps : ℕ := 0

structure CrdtStore where
  nodeId : NodeId
  clock : HLC
  registers : Table String (LWWRegister ObjectDataRef)
  sets : Table String (ORSet String)
  gCounters : Table String GCounter
  pnCounters : Table String PNCounter
  stats : CrdtStoreStats

namespace CrdtStore

def fetchAdd (count amount : ℕ) : ℕ := (count + amount) % u64Modulus

def new (nodeId : NodeId) (now : ℕ) : CrdtStore where
  nodeId := nodeId
  clock := HLC.new nodeId now
  registers := ∅
  sets := ∅
  gCounters := ∅
  pnCounters := ∅
  stats := {}

variable (store : CrdtStore)

/-- Put an object reference under the string form of its key. The clock is ticked
for the timestamp returned, at physical time `now`, and a register that exists ticks
it again, at physical time `again`. -/
def put (key : String) (dataRef : ObjectDataRef) (now again : ℕ) : CrdtStore × HLC :=
  let timestamp := store.clock.tick now
  let stats := { store.stats with registerOps := fetchAdd store.stats.registerOps 1 }
  match store.registers.lookup key with
  | some register =>
    let (written, clock) := register.set dataRef timestamp again
    ({ store with clock, stats, registers := store.registers.insert key written }, timestamp)
  | none =>
    let written := LWWRegister.fromParts dataRef timestamp
    ({ store with
        clock := timestamp, stats, registers := store.registers.insert key written }, timestamp)

def get (key : String) : Option ObjectDataRef :=
  (store.registers.lookup key).map LWWRegister.get

def delete (key : String) (now again : ℕ) : CrdtStore × HLC :=
  store.put key default now again

def setAdd (key element : String) : CrdtStore :=
  let set := (store.sets.lookup key).getD (ORSet.new store.nodeId)
  { store with
    sets := store.sets.insert key (set.add element)
    stats := { store.stats with setOps := fetchAdd store.stats.setOps 1 } }

def setRemove (key element : String) : CrdtStore :=
  match store.sets.lookup key with
  | some set =>
    { store with
      sets := store.sets.insert key (set.remove element)
      stats := { store.stats with setOps := fetchAdd store.stats.setOps 1 } }
  | none => store

def setContains (key element : String) : Bool :=
  ((store.sets.lookup key).map fun set => set.contains element).getD false

def countCounterOp : CrdtStore :=
  { store with stats := { store.stats with counterOps := fetchAdd store.stats.counterOps 1 } }

/-- Increment a grow-only counter by an amount; a new counter counts for this
node. -/
def gCounterIncrementBy (key : String) (amount : ℕ) : CrdtStore :=
  let counter := (store.gCounters.lookup key).getD (GCounter.new store.nodeId)
  countCounterOp { store with gCounters := store.gCounters.insert key (counter.incrementBy amount) }

def gCounterValue (key : String) : ℕ :=
  match store.gCounters.lookup key with
  | some counter => counter.value
  | none => 0

def pnCounterIncrement (key : String) : CrdtStore :=
  let counter := (store.pnCounters.lookup key).getD (PNCounter.new store.nodeId)
  countCounterOp { store with pnCounters := store.pnCounters.insert key counter.increment }

def pnCounterDecrement (key : String) : CrdtStore :=
  let counter := (store.pnCounters.lookup key).getD (PNCounter.new store.nodeId)
  countCounterOp { store with pnCounters := store.pnCounters.insert key counter.decrement }

def pnCounterValue (key : String) : ℤ :=
  match store.pnCounters.lookup key with
  | some counter => counter.value
  | none => 0

/-- The store and the statistics returned after a merge was counted. -/
def countMerge (stats : MergeStats) : CrdtStore × MergeStats :=
  ({ store with
      stats :=
        { store.stats with
          merges := fetchAdd store.stats.merges 1
          conflictsResolved :=
            fetchAdd store.stats.conflictsResolved stats.conflictsResolved } }, stats)

def applyRegister (key : String) (value : ObjectDataRef) (timestamp : HLC) (now : ℕ) :
    CrdtStore × MergeStats :=
  let clock := store.clock.receive timestamp now
  match store.registers.lookup key with
  | some register =>
    let (written, updated) := register.setWithTimestamp value timestamp
    countMerge { store with clock, registers := store.registers.insert key written }
      (if updated then { elementsUpdated := 1, conflictsResolved := 1 } else {})
  | none =>
    let written := LWWRegister.fromParts value timestamp
    countMerge { store with clock, registers := store.registers.insert key written }
      { elementsAdded := 1 }

def applySetAdd (key element : String) : CrdtStore × MergeStats :=
  match store.sets.lookup key with
  | some set =>
    if set.contains element then countMerge store {}
    else
      countMerge { store with sets := store.sets.insert key (set.add element) }
        { elementsAdded := 1 }
  | none =>
    let set := (ORSet.new store.nodeId).add element
    countMerge { store with sets := store.sets.insert key set } { elementsAdded := 1 }

def applySetRemove (key element : String) : CrdtStore × MergeStats :=
  match store.sets.lookup key with
  | some set =>
    if set.contains element then
      countMerge { store with sets := store.sets.insert key (set.remove element) }
        { elementsRemoved := 1 }
    else countMerge store {}
  | none => countMerge store {}

/-- Apply the count of one node to a g-counter; a new counter counts for that
node. -/
def applyGCounter (key : String) (nodeId : NodeId) (value : ℕ) : CrdtStore × MergeStats :=
  let remote := (GCounter.new nodeId).incrementBy value
  match store.gCounters.lookup key with
  | some counter =>
    countMerge { store with gCounters := store.gCounters.insert key (counter.merge remote) }
      { elementsUpdated := 1 }
  | none =>
    countMerge { store with gCounters := store.gCounters.insert key remote } { elementsAdded := 1 }

/-- Apply the counts of one node to a PN-counter; a new counter counts for that
node. -/
def applyPNCounter (key : String) (nodeId : NodeId) (positive negative : ℕ) :
    CrdtStore × MergeStats :=
  let remote := ((PNCounter.new nodeId).incrementBy positive).decrementBy negative
  match store.pnCounters.lookup key with
  | some counter =>
    countMerge { store with pnCounters := store.pnCounters.insert key (counter.merge remote) }
      { elementsUpdated := 1 }
  | none =>
    countMerge { store with pnCounters := store.pnCounters.insert key remote }
      { elementsAdded := 1 }

/-- Apply a single update, at physical time `now`. -/
def applyUpdate (now : ℕ) : CrdtUpdate → CrdtStore × MergeStats
  | .register key value timestamp => store.applyRegister key value timestamp now
  | .setAdd key element _ => store.applySetAdd key element
  | .setRemove key element => store.applySetRemove key element
  | .gCounterIncrement key nodeId value => store.applyGCounter key nodeId value
  | .pnCounterUpdate key nodeId positive negative =>
    store.applyPNCounter key nodeId positive negative

end CrdtStore

namespace FullState

def registerUpdates (state : FullState) : List CrdtUpdate :=
  state.registers.map fun (key, value, timestamp) => .register key value timestamp

def setUpdates (state : FullState) : List CrdtUpdate :=
  state.sets.flatMap fun (key, elements) =>
    elements.map fun (element, dot) => .setAdd key element dot

def gCounterUpdates (state : FullState) : List CrdtUpdate :=
  state.gCounters.flatMap fun (key, counts) =>
    counts.map fun (nodeId, value) => .gCounterIncrement key nodeId value

/-- A positive count without a negative one of the same node counts no decrements,
and a negative count without a positive one is dropped. -/
def pnCounterUpdates (state : FullState) : List CrdtUpdate :=
  state.pnCounters.flatMap fun (key, positive, negative) =>
    positive.map fun (nodeId, count) =>
      .pnCounterUpdate key nodeId count
        (((negative.find? fun entry => entry.1 = nodeId).map Prod.snd).getD 0)

def updates (state : FullState) : List CrdtUpdate :=
  state.registerUpdates ++ state.setUpdates ++ state.gCounterUpdates ++ state.pnCounterUpdates

end FullState

namespace CrdtStore

/-- Apply updates one after the other, the first at physical time `now 0`, and add
up their statistics. The source adds up only those that its kind of update can
set. -/
def applyUpdates (store : CrdtStore) (now : ℕ → ℕ) : List CrdtUpdate → CrdtStore × MergeStats
  | [] => (store, {})
  | update :: rest =>
    let (applied, first) := store.applyUpdate (now 0) update
    let (final, others) := applied.applyUpdates (fun place => now (place + 1)) rest
    (final,
      { elementsAdded := first.elementsAdded + others.elementsAdded
        elementsUpdated := first.elementsUpdated + others.elementsUpdated
        conflictsResolved := first.conflictsResolved + others.conflictsResolved })

/-- Apply a delta from a remote node; `now` gives the physical times read. -/
def applyDelta (store : CrdtStore) (now : ℕ → ℕ) : CrdtDelta → CrdtStore × MergeStats
  | .update update => store.applyUpdate (now 0) update
  | .fullState state =>
    let (applied, stats) := store.applyUpdates now state.updates
    applied.countMerge stats

/-- Export the state of the store. A g-counter exports only the count of the node
it counts for; a PN-counter exports its totals as that node's counts. The dots of
set elements are not exported. -/
def exportState (store : CrdtStore) : FullState where
  registers := store.registers.entries.map fun entry =>
    (entry.1, entry.2.get, entry.2.timestamp)
  sets := store.sets.entries.map fun entry =>
    (entry.1, entry.2.iter.map fun element => (element, (store.nodeId, 0)))
  gCounters := store.gCounters.entries.map fun entry =>
    (entry.1, [(entry.2.nodeId, entry.2.localValue)])
  pnCounters := store.pnCounters.entries.map fun entry =>
    (entry.1, [(entry.2.nodeId, entry.2.totalIncrements)],
      [(entry.2.nodeId, entry.2.totalDecrements)])

def generateDelta (store : CrdtStore) : CrdtDelta := .fullState store.exportState

end CrdtStore

end Warp.Store
