import Warp.Crdt.Hlc
import Warp.Foundation.Run
import Warp.Foundation.Table

/-! # The observed-remove set

An element is tagged with the dots of its visible additions. A removal drops these dots without a
record, and a merge takes the union, so that it brings back what the other side still holds: after a
removal an element stays away exactly as long as the remover merges only replicas that do not hold
it (`observed_remove_sticks_iff`). Two maps that merge each other agree exactly where they held no
two values (`maps_converge_iff`).
-/

namespace Warp.Crdt

open List Function Run

/-- A node and its counter, which wraps around as in a release build. -/
abbrev Dot := NodeId × UInt64

structure ORSet (T : Type*) where
  elements : Table T (Finset Dot)
  counters : Table NodeId UInt64
  nodeId : NodeId

namespace ORSet

variable {T : Type*} [DecidableEq T] (set : ORSet T)

def new (nodeId : NodeId) : ORSet T where
  elements := ∅
  counters := ∅
  nodeId := nodeId

def dots (set : ORSet T) (element : T) : Finset Dot :=
  (set.elements.lookup element).getD ∅

def add (set : ORSet T) (element : T) : ORSet T :=
  let counter := (set.counters.lookup set.nodeId).getD 0 + 1
  let dot := (set.nodeId, counter)
  { set with
    counters := set.counters.insert set.nodeId counter
    elements := set.elements.insert element (insert dot (set.dots element)) }

def remove (set : ORSet T) (element : T) : ORSet T :=
  { set with elements := set.elements.erase element }

def contains (set : ORSet T) (element : T) : Bool :=
  ((set.elements.lookup element).map fun dots => !decide (dots = ∅)).getD false

def iter (set : ORSet T) : List T :=
  (set.elements.entries.filter fun entry => !decide (entry.2 = ∅)).map Sigma.fst

/-- Merge with another OR-Set: the union of the dots of each element, and the
larger of both counters of each node. -/
def merge (set other : ORSet T) : ORSet T :=
  { set with
    elements := set.elements.mergeWith (· ∪ ·) ∅ other.elements
    counters := set.counters.mergeWith max 0 other.counters }

theorem contains_iff (element : T) :
    set.contains element = true ↔ set.dots element ≠ ∅ := by
  unfold contains dots
  cases set.elements.lookup element <;> simp

theorem dots_add_of_ne {added element : T} (different : element ≠ added) :
    (set.add added).dots element = set.dots element := by
  unfold dots add
  rw [Table.lookup_insert_eq, if_neg different]

@[simp] theorem dots_remove (removed element : T) :
    (set.remove removed).dots element = if element = removed then ∅ else set.dots element := by
  unfold dots remove
  rw [Table.lookup_erase_eq]
  split <;> rfl

@[simp] theorem dots_merge (set other : ORSet T) (element : T) :
    (set.merge other).dots element = set.dots element ∪ other.dots element := by
  unfold dots merge
  rw [Table.lookup_mergeWith]
  cases other.elements.lookup element with
  | none => simp
  | some dots => rfl

theorem contains_merge (set other : ORSet T) (element : T) :
    (set.merge other).contains element = (set.contains element || other.contains element) := by
  rw [Bool.eq_iff_iff, Bool.or_eq_true, contains_iff, contains_iff, contains_iff, dots_merge, ne_eq,
    Finset.union_eq_empty, not_and_or]

theorem mem_iter {set : ORSet T} {element : T} :
    element ∈ set.iter ↔ set.contains element = true := by
  unfold iter contains
  cases found : set.elements.lookup element <;> simp [← AList.mem_lookup_iff, found]

end ORSet

section Replicas
variable {Node T : Type*} [DecidableEq Node] [DecidableEq T] (replicas : Node → ORSet T)

/-- One operation on the replicas: a local addition or removal, or merging the
state of one replica into another. -/
inductive SetAction (Node T : Type*) where
  | add (node : Node) (element : T)
  | remove (node : Node) (element : T)
  | merge (target source : Node)

def setReplicas (nodeId : Node → NodeId) : Node → ORSet T := fun node => ORSet.new (nodeId node)

def setStep (replicas : Node → ORSet T) : SetAction Node T → Node → ORSet T
  | .add node element => Function.update replicas node ((replicas node).add element)
  | .remove node element => Function.update replicas node ((replicas node).remove element)
  | .merge target source =>
    Function.update replicas target ((replicas target).merge (replicas source))

/-- A removal of an element whose dots at another replica the remover has all
observed, followed by operations that add the element nowhere and leave that
replica as it is. -/
structure ObservedRemoval (replicas : Node → ORSet T) (remover stale : Node) (element : T)
    (between : List (SetAction Node T)) : Prop where
  observed : (replicas stale).dots element ⊆ (replicas remover).dots element
  quiet : ∀ node, SetAction.add node element ∉ between
  unchanged : Run.after setStep replicas (.remove remover element :: between) stale = replicas stale

/-- What one operation that does not add the element does to the remover's copy
of it. -/
theorem contains_setStep (action : SetAction Node T) (remover : Node) (element : T)
    (quiet : ∀ node, action ≠ .add node element) :
    (setStep replicas action remover).contains element = true ↔
      (∃ source, action = .merge remover source ∧ (replicas source).contains element = true) ∨
        action ≠ .remove remover element ∧ (replicas remover).contains element = true := by
  simp only [ORSet.contains_iff]
  cases action with
  | add node added =>
    have different : element ≠ added := fun same => quiet node (same ▸ rfl)
    have kept : (setStep replicas (.add node added) remover).dots element =
        (replicas remover).dots element := by
      simp only [setStep]
      by_cases own : remover = node
      · subst own
        rw [update_self, ORSet.dots_add_of_ne _ different]
      · rw [update_of_ne own]
    simp [kept]
  | remove node removed =>
    simp only [setStep]
    by_cases own : remover = node
    · subst own
      rw [update_self, ORSet.dots_remove]
      by_cases same : element = removed
      · simp [same]
      · simp [same, Ne.symm same]
    · rw [update_of_ne own]
      simp [Ne.symm own]
  | merge target source =>
    simp only [setStep]
    by_cases own : remover = target
    · subst own
      rw [update_self, ORSet.dots_merge]
      simp only [ne_eq, Finset.union_eq_empty, not_and_or, SetAction.merge.injEq, true_and,
        reduceCtorEq, not_false_eq_true, exists_eq_left']
      exact or_comm
    · rw [update_of_ne own]
      simp [Ne.symm own]

/-- After operations that add the element nowhere, a replica that did not hold it
holds it exactly if it has merged a replica that held it, and has not removed it
since. -/
theorem contains_after_iff (remover : Node) (element : T)
    (absent : (replicas remover).contains element = false) (actions : List (SetAction Node T))
    (quiet : ∀ node, SetAction.add node element ∉ actions) :
    (after setStep replicas actions remover).contains element = true ↔
      ∃ prior source later, actions = prior ++ .merge remover source :: later ∧
        SetAction.remove remover element ∉ later ∧
        (after setStep replicas prior source).contains element = true := by
  induction actions using List.reverseRecOn with
  | nil =>
    simp only [after_nil, absent, Bool.false_eq_true, false_iff]
    rintro ⟨prior, source, later, split, -⟩
    simp at split
  | append_singleton front action ih =>
    have frontQuiet : ∀ node, SetAction.add node element ∉ front :=
      fun node member => quiet node (mem_append_left _ member)
    have lastQuiet : ∀ node, action ≠ .add node element := fun node same =>
      quiet node (mem_append_right _ (mem_singleton.mpr same.symm))
    rw [after_append, after_cons, after_nil,
      contains_setStep _ action remover element lastQuiet, ih frontQuiet]
    constructor
    · rintro (⟨source, rfl, held⟩ | ⟨kept, prior, source, later, rfl, notRemoved, held⟩)
      · exact ⟨front, source, [], rfl, not_mem_nil, held⟩
      · refine ⟨prior, source, later ++ [action], by simp, ?_, held⟩
        simp only [mem_append, mem_singleton, not_or]
        exact ⟨notRemoved, fun same => kept same.symm⟩
    · rintro ⟨prior, source, later, split, notRemoved, held⟩
      rcases eq_nil_or_concat later with rfl | ⟨later, last, rfl⟩
      · obtain ⟨rfl, same⟩ := append_inj' split rfl
        exact Or.inl ⟨source, singleton_inj.mp same, held⟩
      · rw [concat_eq_append, ← cons_append, ← append_assoc] at split
        obtain ⟨rfl, same⟩ := append_inj' split rfl
        obtain rfl := singleton_inj.mp same
        simp only [concat_eq_append, mem_append, mem_singleton, not_or] at notRemoved
        exact Or.inr ⟨fun same => notRemoved.2 same.symm, prior, source, later, rfl,
          notRemoved.1, held⟩

/-- **When an observed removal sticks.** After a run of the replicas, a removal
whose remover has observed every dot of the element at a stale replica, and
operations that add the element nowhere, merging the stale replica leaves the
element absent if and only if every replica the remover has merged since its last
removal of the element, the stale one included, did not hold the element then. -/
theorem observed_remove_sticks_iff (nodeId : Node → NodeId) (earlier : List (SetAction Node T))
    (remover stale : Node) (element : T) (between : List (SetAction Node T))
    (scenario : ObservedRemoval (Run.after setStep (setReplicas nodeId) earlier) remover stale
      element between) :
    let removed := setStep (after setStep (setReplicas nodeId) earlier)
      (.remove remover element)
    (after setStep removed (between ++ [.merge remover stale]) remover).contains element =
        false ↔
      ∀ prior source later,
        between ++ [.merge remover stale] = prior ++ .merge remover source :: later →
        SetAction.remove remover element ∉ later →
        (after setStep removed prior source).contains element = false := by
  intro removed
  have absent : (removed remover).contains element = false := by
    rw [← Bool.not_eq_true, ORSet.contains_iff]
    simp [removed, setStep]
  have quiet : ∀ node, SetAction.add node element ∉ between ++ [.merge remover stale] := by
    intro node member
    rcases mem_append.mp member with old | last
    · exact scenario.quiet node old
    · cases mem_singleton.mp last
  have held := contains_after_iff removed remover element absent _ quiet
  rw [← Bool.not_eq_true, held]
  simp

/-- Replica `true` adds 7, replica `false` observes and removes it, and gets it
back by merging the unchanged replica `true`. -/
theorem observed_remove_resurrected :
    let earlier : List (SetAction Bool ℕ) := [.add true 7, .merge false true]
    let replicas := after setStep (setReplicas Bool.toNat) earlier
    ObservedRemoval replicas false true 7 [] ∧
      (after setStep replicas
        [.remove false 7, .merge false true] false).contains 7 = true := by
  intro earlier replicas
  refine ⟨⟨by decide, fun node => not_mem_nil, ?_⟩, by decide⟩
  rfl

/-- Replica `true` adds 7 and removes it after replica `false` has observed it. -/
theorem observed_remove_sticks_at_seven :
    let earlier : List (SetAction Bool ℕ) := [.add true 7, .merge false true, .remove true 7]
    let replicas := Run.after setStep (setReplicas Bool.toNat) earlier
    (replicas false).contains 7 = true ∧
      (Run.after setStep (setStep replicas (.remove false 7)) [.merge false true]
        false).contains 7 = false := by
  intro earlier replicas
  refine ⟨by decide, (observed_remove_sticks_iff Bool.toNat earlier false true 7 []
    ⟨by decide, fun node => not_mem_nil, rfl⟩).mpr ?_⟩
  intro prior source later split _
  obtain ⟨rfl, same⟩ : prior = [] ∧ source = true := by
    cases prior with
    | nil =>
      simp only [nil_append, List.cons.injEq, SetAction.merge.injEq, true_and] at split
      exact ⟨rfl, split.1.symm⟩
    | cons first rest => simp at split
  subst same
  decide

end Replicas

structure ORMap (K V : Type*) where
  keys : ORSet K
  values : Table K V

namespace ORMap

variable {K V : Type*} [DecidableEq K] (map other : ORMap K V)

def new (nodeId : NodeId) : ORMap K V := ⟨.new nodeId, ∅⟩

def insert (key : K) (value : V) : ORMap K V := ⟨map.keys.add key, map.values.insert key value⟩

def remove (key : K) : ORMap K V := ⟨map.keys.remove key, map.values.erase key⟩

def get (key : K) : Option V :=
  if map.keys.contains key then map.values.lookup key else none

/-- The other map's value for a key, unless there is one already. -/
def takeValue (values : Table K V) (key : K) : Table K V :=
  match other.values.lookup key with
  | some value => if (values.lookup key).isSome then values else values.insert key value
  | none => values

def merge : ORMap K V where
  keys := map.keys.merge other.keys
  values := other.keys.iter.foldl other.takeValue map.values

inductive Reachable : ORMap K V → Prop
  | new (nodeId : NodeId) : Reachable (.new nodeId)
  | insert {map : ORMap K V} (key : K) (value : V) : Reachable map → Reachable (map.insert key value)
  | remove {map : ORMap K V} (key : K) : Reachable map → Reachable (map.remove key)
  | merge {map other : ORMap K V} : Reachable map → Reachable other → Reachable (map.merge other)

theorem lookup_takeValue (values : Table K V) (taken key : K) :
    (other.takeValue values taken).lookup key =
      (values.lookup key).or (if key = taken then other.values.lookup key else none) := by
  unfold takeValue
  by_cases same : key = taken
  · subst same
    cases found : other.values.lookup key with
    | none => simp
    | some value => cases held : values.lookup key <;> simp [held]
  · rw [if_neg same, Option.or_none]
    cases other.values.lookup taken with
    | none => rfl
    | some value =>
      dsimp only
      split
      · rfl
      · exact AList.lookup_insert_ne same

theorem lookup_foldl_takeValue (keys : List K) (values : Table K V) (key : K) :
    (keys.foldl other.takeValue values).lookup key =
      (values.lookup key).or (if key ∈ keys then other.values.lookup key else none) := by
  induction keys generalizing values with
  | nil => simp
  | cons taken rest ih =>
    rw [foldl_cons, ih, lookup_takeValue, Option.or_assoc]
    congr 1
    by_cases same : key = taken
    · subst same
      by_cases later : key ∈ rest <;> simp [later]
    · simp [same]

variable {map other}

theorem Reachable.isSome_lookup (reachable : map.Reachable) (key : K) :
    (map.values.lookup key).isSome = map.keys.contains key := by
  induction reachable with
  | new nodeId => rfl
  | insert added value _ ih =>
    rw [Bool.eq_iff_iff, ORSet.contains_iff] at ih ⊢
    simp only [ORMap.insert, Table.lookup_insert_eq]
    by_cases same : key = added
    · subst same
      simp [ORSet.dots, ORSet.add]
    · rw [if_neg same, ORSet.dots_add_of_ne _ same, ih]
  | remove removed _ ih =>
    rw [Bool.eq_iff_iff, ORSet.contains_iff] at ih ⊢
    simp only [ORMap.remove, Table.lookup_erase_eq, ORSet.dots_remove]
    by_cases same : key = removed <;> simp [same, ih]
  | merge _ _ ih ih' =>
    simp only [ORMap.merge, lookup_foldl_takeValue, ORSet.mem_iter, ORSet.contains_merge, ← ih, ← ih',
      Option.isSome_or]
    congr 1
    cases AList.lookup key _ <;> rfl

theorem get_merge (reachable : map.Reachable) (otherReachable : other.Reachable) (key : K) :
    (map.merge other).get key = (map.get key).or (other.get key) := by
  have held := (reachable.merge otherReachable).isSome_lookup key
  unfold get
  rw [← held, ← reachable.isSome_lookup, ← otherReachable.isSome_lookup]
  simp only [ORMap.merge, lookup_foldl_takeValue, ORSet.mem_iter, ← otherReachable.isSome_lookup]
  cases map.values.lookup key <;> cases other.values.lookup key <;> simp

end ORMap

/-- **When two maps converge.** After both have merged the other, they have the same value for a
key if and only if they did not hold two different values for it before. -/
theorem maps_converge_iff {K V : Type*} [DecidableEq K] {first second : ORMap K V}
    (reachable : first.Reachable) (otherReachable : second.Reachable) (key : K) :
    (first.merge second).get key = (second.merge first).get key ↔
      ∀ left right, first.get key = some left → second.get key = some right → left = right := by
  rw [ORMap.get_merge reachable otherReachable, ORMap.get_merge otherReachable reachable]
  cases first.get key <;> cases second.get key <;> simp

/-- Two maps with another key each hold the same value for a common one. -/
theorem maps_converge_common :
    let first := ((ORMap.new 1 : ORMap ℕ ℕ).insert 7 1).insert 8 2
    let second := ((ORMap.new 2 : ORMap ℕ ℕ).insert 8 2).insert 9 3
    (first.merge second).get 8 = (second.merge first).get 8 := by
  intro first second
  have same : first.get 8 = second.get 8 := by decide
  refine (maps_converge_iff (.insert 8 2 (.insert 7 1 (.new 1)))
    (.insert 9 3 (.insert 8 2 (.new 2))) 8).mpr ?_
  intro left right held other
  exact Option.some.inj (held.symm.trans (same.trans other))

/-- Two replicas insert different values for one key and merge each other. -/
theorem maps_diverge :
    let first := (ORMap.new 1 : ORMap ℕ ℕ).insert 7 1
    let second := (ORMap.new 2 : ORMap ℕ ℕ).insert 7 2
    (first.merge second).get 7 = some 1 ∧ (second.merge first).get 7 = some 2 := by
  decide

end Warp.Crdt
