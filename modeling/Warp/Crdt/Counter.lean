import Warp.Crdt.Hlc
import Warp.Foundation.Table

/-! # Grow-only and positive-negative counters

A grow-only counter keeps one count for each node; its value is their sum, and a
merge takes the larger count of each node. A positive-negative counter is a pair of
them, one for increments and one for decrements. Counts are 64-bit and wrap, as
they do in a release build.
-/

namespace Warp.Crdt

def u64Modulus : ℕ := 2 ^ 64

/-- Read an unsigned 64-bit integer, or the wrapped result of an operation on
signed ones, as a signed 64-bit integer. -/
def asI64 (value : ℤ) : ℤ := value.bmod u64Modulus

theorem asI64_eq {value : ℤ} (lower : -2 ^ 63 ≤ value) (upper : value < 2 ^ 63) :
    asI64 value = value := by
  unfold asI64 u64Modulus
  exact Int.bmod_eq_of_le (by omega) (by omega)

structure GCounter where
  counts : Table NodeId ℕ
  nodeId : NodeId

namespace GCounter

def new (nodeId : NodeId) : GCounter where
  counts := ∅
  nodeId := nodeId

def nodeValue (counter : GCounter) (node : NodeId) : ℕ :=
  (counter.counts.lookup node).getD 0

def localValue (counter : GCounter) : ℕ := counter.nodeValue counter.nodeId

def incrementBy (counter : GCounter) (amount : ℕ) : GCounter :=
  { counter with
    counts := counter.counts.insert counter.nodeId ((counter.localValue + amount) % u64Modulus) }

def increment (counter : GCounter) : GCounter := counter.incrementBy 1

def value (counter : GCounter) : ℕ := counter.counts.values.sum % u64Modulus

/-- Merge with another counter: the larger of both counts of each node. -/
def merge (counter other : GCounter) : GCounter :=
  { counter with counts := counter.counts.mergeWith max 0 other.counts }

@[simp] theorem nodeValue_new (node query : NodeId) : (new node).nodeValue query = 0 := by
  unfold nodeValue new
  rw [AList.lookup_empty]
  rfl

variable (counter : GCounter)

theorem nodeValue_incrementBy (amount : ℕ) (query : NodeId)
    (fits : counter.localValue + amount < u64Modulus) :
    (counter.incrementBy amount).nodeValue query =
      counter.nodeValue query + if query = counter.nodeId then amount else 0 := by
  unfold nodeValue incrementBy
  rw [Table.lookup_insert_eq, Nat.mod_eq_of_lt fits]
  by_cases own : query = counter.nodeId
  · rw [if_pos own, if_pos own, own]
    rfl
  · rw [if_neg own, if_neg own, Nat.add_zero]

@[simp] theorem nodeValue_merge (counter other : GCounter) (query : NodeId) :
    (counter.merge other).nodeValue query =
      max (counter.nodeValue query) (other.nodeValue query) := by
  unfold nodeValue merge
  rw [Table.lookup_mergeWith]
  cases other.counts.lookup query with
  | none => simp
  | some count => rfl

theorem value_eq_sum (support : Finset NodeId)
    (covers : ∀ node ∉ support, counter.nodeValue node = 0) :
    counter.value = (∑ node ∈ support, counter.nodeValue node) % u64Modulus :=
  congrArg (· % u64Modulus) (Table.sum_values_eq counter.counts support covers)

end GCounter

/-- Positive-Negative Counter CRDT. Both parts count for the same node. -/
structure PNCounter where
  positive : GCounter
  negative : GCounter
  sameNode : negative.nodeId = positive.nodeId

namespace PNCounter

def new (nodeId : NodeId) : PNCounter where
  positive := GCounter.new nodeId
  negative := GCounter.new nodeId
  sameNode := rfl

section
variable (counter : PNCounter)

def nodeId : NodeId := counter.positive.nodeId

def incrementBy (amount : ℕ) : PNCounter :=
  { counter with
    positive := counter.positive.incrementBy amount
    sameNode := counter.sameNode }

def increment : PNCounter :=
  { counter with
    positive := counter.positive.increment
    sameNode := counter.sameNode }

def decrementBy (amount : ℕ) : PNCounter :=
  { counter with
    negative := counter.negative.incrementBy amount
    sameNode := counter.sameNode }

def decrement : PNCounter :=
  { counter with
    negative := counter.negative.increment
    sameNode := counter.sameNode }

def totalIncrements : ℕ := counter.positive.value

def totalDecrements : ℕ := counter.negative.value

def value : ℤ :=
  asI64 (asI64 counter.positive.value - asI64 counter.negative.value)

end

def merge (counter other : PNCounter) : PNCounter where
  positive := counter.positive.merge other.positive
  negative := counter.negative.merge other.negative
  sameNode := counter.sameNode

/-- Totals that fit a signed 64-bit integer subtract without wrapping. -/
theorem value_eq_sub (counter : PNCounter) (increments : counter.positive.value < 2 ^ 63)
    (decrements : counter.negative.value < 2 ^ 63) :
    counter.value = (counter.positive.value : ℤ) - counter.negative.value := by
  have positiveExact : asI64 counter.positive.value = counter.positive.value :=
    asI64_eq (by omega) (by omega)
  have negativeExact : asI64 counter.negative.value = counter.negative.value :=
    asI64_eq (by omega) (by omega)
  unfold value
  rw [positiveExact, negativeExact]
  exact asI64_eq (by omega) (by omega)

end PNCounter

end Warp.Crdt
