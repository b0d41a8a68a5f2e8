import Warp.Crdt.Hlc
import Warp.Foundation.Run

/-! # Hybrid logical clocks capture causality

Nodes take local steps, send messages and receive earlier messages, each step
reading an arbitrary physical time. Below saturation of the logical counter every
event's timestamp lies after the timestamps of all events that happened before
it, and no two events share a timestamp
(`Causality.hlc_captures_causality`).
-/

namespace Warp.Crdt.Causality

open List Function HLC

variable {Node : Type*}

/-- What an event is; a receive names the send it received by its place in the
list of events. -/
inductive EventKind where
  | tick
  | send
  | receive (source : ℕ)
  deriving DecidableEq

structure Event (Node : Type*) where
  node : Node
  kind : EventKind
  stamp : HLC
  deriving DecidableEq

structure System (Node : Type*) where
  clock : Node → HLC
  events : List (Event Node)

inductive Action (Node : Type*) where
  | tick (node : Node) (now : ℕ)
  | send (node : Node) (now : ℕ)
  | receive (node : Node) (source : ℕ) (now : ℕ)

/-- Clocks created by `HLC::new` at the given physical times, before any event. -/
def System.initial (nodeId : Node → NodeId) (start : Node → ℕ) : System Node where
  clock node := HLC.new (nodeId node) (start node)
  events := []

variable [DecidableEq Node]

def System.record (system : System Node) (node : Node) (kind : EventKind) (stamp : HLC) :
    System Node where
  clock := Function.update system.clock node stamp
  events := system.events ++ [⟨node, kind, stamp⟩]

def System.step (system : System Node) : Action Node → System Node
  | .tick node now => system.record node .tick ((system.clock node).tick now)
  | .send node now => system.record node .send ((system.clock node).send now)
  | .receive node source now =>
    match system.events[source]? with
    | some ⟨_, .send, stamp⟩ =>
      system.record node (.receive source) ((system.clock node).receive stamp now)
    | _ => system

/-- One event immediately precedes another: an earlier event of the same node, or
the send of a received message. -/
def Precedes (events : List (Event Node)) (first last : ℕ) : Prop :=
  (first < last ∧ ∃ earlier later, events[first]? = some earlier ∧ events[last]? = some later ∧
    earlier.node = later.node) ∨
  ∃ later, events[last]? = some later ∧ later.kind = .receive first

/-- The happened-before relation on the places of a list of events. -/
def HappenedBefore (events : List (Event Node)) : ℕ → ℕ → Prop :=
  Relation.TransGen (Precedes events)

/-- Every step either does nothing or records one event whose timestamp, if it
does not saturate, lies after the node's clock and after the send it received. -/
theorem step_cases (system : System Node) (action : Action Node) :
    system.step action = system ∨
      ∃ node kind stamp, system.step action = system.record node kind stamp ∧
        stamp.nodeId = (system.clock node).nodeId ∧
        (stamp.logical ≠ u32Max → (system.clock node).time < stamp.time ∧
          ∀ source, kind = .receive source →
            ∃ sent, system.events[source]? = some sent ∧ sent.stamp.time < stamp.time) := by
  cases action with
  | tick node now =>
    refine Or.inr ⟨node, .tick, _, rfl, tick_nodeId _ _, fun unsaturated => ?_⟩
    exact ⟨time_lt_tick _ _ unsaturated, fun source absurd => by cases absurd⟩
  | send node now =>
    refine Or.inr ⟨node, .send, _, rfl, tick_nodeId _ _, fun unsaturated => ?_⟩
    exact ⟨time_lt_tick _ _ unsaturated, fun source absurd => by cases absurd⟩
  | receive node source now =>
    unfold System.step
    dsimp only
    split
    · next sender stamp found =>
      refine Or.inr ⟨node, .receive source, _, rfl, receive_nodeId _ _ _, fun unsaturated => ?_⟩
      obtain ⟨afterClock, afterSent⟩ := time_lt_receive _ _ _ unsaturated
      refine ⟨afterClock, ?_⟩
      intro named same
      cases same
      exact ⟨_, found, afterSent⟩
    · exact Or.inl rfl

structure Causal (nodeId : Node → NodeId) (system : System Node) : Prop where
  clocks : ∀ node, (system.clock node).nodeId = nodeId node
  stamped : ∀ event ∈ system.events, event.stamp.nodeId = nodeId event.node ∧
    event.stamp.time ≤ (system.clock event.node).time
  ordered : system.events.Pairwise fun earlier later =>
    earlier.node = later.node → earlier.stamp.time < later.stamp.time
  received : ∀ (place : ℕ) (event : Event Node) (source : ℕ), system.events[place]? = some event →
    event.kind = .receive source →
      ∃ sent : Event Node, system.events[source]? = some sent ∧ sent.stamp.time < event.stamp.time

omit [DecidableEq Node] in
theorem causal_initial (nodeId : Node → NodeId) (start : Node → ℕ) :
    Causal nodeId (System.initial nodeId start) where
  clocks _ := rfl
  stamped _ member := (not_mem_nil member).elim
  ordered := Pairwise.nil
  received _ _ _ found := by cases found

variable {nodeId : Node → NodeId} {system : System Node}

/-- Recording an event after its node's clock keeps a system causal. -/
theorem Causal.record
    (causal : Causal nodeId system) {node : Node} {kind : EventKind} {stamp : HLC}
    (same : stamp.nodeId = (system.clock node).nodeId)
    (afterClock : (system.clock node).time < stamp.time)
    (afterSent : ∀ source, kind = .receive source →
      ∃ sent, system.events[source]? = some sent ∧ sent.stamp.time < stamp.time) :
    Causal nodeId (system.record node kind stamp) where
  clocks other := by
    by_cases own : other = node
    · subst own
      simp only [System.record, update_self, same, causal.clocks]
    · simp only [System.record, update_of_ne own, causal.clocks]
  stamped event member := by
    rcases mem_append.mp member with old | new
    · refine ⟨(causal.stamped event old).1, ?_⟩
      have bound := (causal.stamped event old).2
      by_cases own : event.node = node
      · rw [own] at bound ⊢
        simp only [System.record, update_self]
        exact bound.trans afterClock.le
      · simp only [System.record, update_of_ne own]
        exact bound
    · rw [mem_singleton.mp new]
      simp only [System.record, update_self, same, causal.clocks, le_refl, and_self]
  ordered := by
    refine pairwise_append.mpr ⟨causal.ordered, pairwise_singleton _ _, ?_⟩
    intro earlier old later new own
    rw [mem_singleton.mp new] at own ⊢
    have bound := (causal.stamped earlier old).2
    rw [own] at bound
    exact bound.trans_lt afterClock
  received place event source found isReceive := by
    have extended (sent : Event Node) (earlier : system.events[source]? = some sent) :
        (system.record node kind stamp).events[source]? = some sent := by
      rw [System.record, getElem?_append_left (List.getElem?_eq_some_iff.mp earlier).1]
      exact earlier
    by_cases old : place < system.events.length
    · rw [System.record, getElem?_append_left old] at found
      obtain ⟨sent, earlier, before⟩ := causal.received place event source found isReceive
      exact ⟨sent, extended sent earlier, before⟩
    · rw [System.record, getElem?_append_right (by omega)] at found
      obtain ⟨bound, rfl⟩ := List.getElem?_eq_some_iff.mp found
      simp only [getElem_singleton] at isReceive ⊢
      obtain ⟨sent, earlier, before⟩ := afterSent source isReceive
      exact ⟨sent, extended sent earlier, before⟩

theorem events_prefix_step (system : System Node) (action : Action Node) :
    system.events <+: (system.step action).events := by
  rcases step_cases system action with idle | ⟨node, kind, stamp, recorded, -⟩
  · exact idle.symm ▸ prefix_rfl
  · exact recorded ▸ prefix_append _ _

theorem events_prefix_after (system : System Node) (actions : List (Action Node)) :
    system.events <+: (Run.after System.step system actions).events := by
  induction actions generalizing system with
  | nil => exact prefix_refl _
  | cons action rest ih => exact (events_prefix_step system action).trans (ih _)

section
variable (causal : Causal nodeId system)
include causal

/-- A run whose events never saturate keeps a system causal. -/
theorem Causal.after (actions : List (Action Node))
    (unsaturated : ∀ event ∈ (Run.after System.step system actions).events,
      event.stamp.logical ≠ u32Max) :
    Causal nodeId (Run.after System.step system actions) := by
  induction actions generalizing system with
  | nil => exact causal
  | cons action rest ih =>
    refine ih ?_ unsaturated
    rcases step_cases system action with idle | ⟨node, kind, stamp, recorded, same, later⟩
    · rw [idle]
      exact causal
    · have present : (⟨node, kind, stamp⟩ : Event Node) ∈ (system.step action).events := by
        rw [recorded]
        exact mem_append_right _ (mem_singleton_self _)
      obtain ⟨afterClock, afterSent⟩ :=
        later (unsaturated _ ((events_prefix_after _ rest).subset present))
      rw [recorded]
      exact causal.record same afterClock afterSent

omit [DecidableEq Node] in
/-- Events of one node are stamped in the order they happen. -/
theorem Causal.time_lt_of_same_node {first last : ℕ} {earlier later : Event Node}
    (order : first < last) (atFirst : system.events[first]? = some earlier)
    (atLast : system.events[last]? = some later) (own : earlier.node = later.node) :
    earlier.stamp.time < later.stamp.time := by
  obtain ⟨firstBound, rfl⟩ := List.getElem?_eq_some_iff.mp atFirst
  obtain ⟨lastBound, rfl⟩ := List.getElem?_eq_some_iff.mp atLast
  exact pairwise_iff_getElem.mp causal.ordered first last firstBound lastBound order own

omit [DecidableEq Node] in
theorem Causal.time_lt_of_precedes {first last : ℕ} (precedes : Precedes system.events first last) :
    ∃ earlier later, system.events[first]? = some earlier ∧ system.events[last]? = some later ∧
      earlier.stamp.time < later.stamp.time := by
  rcases precedes with ⟨order, earlier, later, atFirst, atLast, own⟩ | ⟨later, atLast, isReceive⟩
  · exact ⟨earlier, later, atFirst, atLast, causal.time_lt_of_same_node order atFirst atLast own⟩
  · obtain ⟨sent, atFirst, before⟩ := causal.received last later first atLast isReceive
    exact ⟨sent, later, atFirst, atLast, before⟩

omit [DecidableEq Node] in
theorem Causal.time_lt_of_happenedBefore {first last : ℕ}
    (before : HappenedBefore system.events first last) :
    ∃ earlier later, system.events[first]? = some earlier ∧ system.events[last]? = some later ∧
      earlier.stamp.time < later.stamp.time := by
  induction before with
  | single precedes => exact causal.time_lt_of_precedes precedes
  | tail _ precedes ih =>
    obtain ⟨earlier, middle, atFirst, atMiddle, before⟩ := ih
    obtain ⟨middle', later, atMiddle', atLast, after⟩ := causal.time_lt_of_precedes precedes
    cases Option.some.inj (atMiddle.symm.trans atMiddle')
    exact ⟨earlier, later, atFirst, atLast, before.trans after⟩

end

/-- **HLC captures causality.** For nodes with distinct ids and every run of
ticks, sends and receives under arbitrary physical clocks in which no logical
counter reaches its largest value, an event that happened before another has the
smaller timestamp, and distinct events have distinct timestamps. -/
theorem hlc_captures_causality (nodeId : Node → NodeId) (distinct : Function.Injective nodeId)
    (start : Node → ℕ) (actions : List (Action Node))
    (unsaturated : ∀ event ∈
      (Run.after System.step (System.initial nodeId start) actions).events,
      event.stamp.logical ≠ u32Max) :
    let events := (Run.after System.step (System.initial nodeId start) actions).events
    ∀ (first last : ℕ) (earlier later : Event Node),
      events[first]? = some earlier → events[last]? = some later →
      (HappenedBefore events first last → earlier.stamp.cmp later.stamp = .lt) ∧
        (first ≠ last → earlier.stamp ≠ later.stamp) := by
  intro events first last earlier later atFirst atLast
  have causal := (causal_initial nodeId start).after actions unsaturated
  constructor
  · intro before
    obtain ⟨earlier', later', atFirst', atLast', timed⟩ := causal.time_lt_of_happenedBefore before
    cases Option.some.inj (atFirst.symm.trans atFirst')
    cases Option.some.inj (atLast.symm.trans atLast')
    exact HLC.cmp_eq_lt_iff.mpr (lt_of_time_lt timed)
  · intro different same
    have nodes : earlier.node = later.node := by
      apply distinct
      rw [← (causal.stamped earlier (mem_of_getElem? atFirst)).1,
        ← (causal.stamped later (mem_of_getElem? atLast)).1, same]
    rcases Nat.lt_or_gt_of_ne different with order | order
    · have timed := causal.time_lt_of_same_node order atFirst atLast nodes
      rw [same] at timed
      exact timed.ne rfl
    · have timed := causal.time_lt_of_same_node order atLast atFirst nodes.symm
      rw [same] at timed
      exact timed.ne rfl

/-- A message received under a clock that runs behind the sender's. -/
theorem hlc_captures_causality_relay :
    let events := (Run.after System.step (System.initial Bool.toNat fun _ => 10)
      [.send false 12, .receive true 0 3, .tick true 2]).events
    HappenedBefore events 0 2 ∧ (⟨12, 0, 0⟩ : HLC).cmp ⟨12, 2, 1⟩ = .lt := by
  intro events
  have message : Precedes events 0 1 :=
    Or.inr ⟨⟨true, .receive 0, ⟨12, 1, 1⟩⟩, rfl, rfl⟩
  have localStep : Precedes events 1 2 :=
    Or.inl ⟨by decide, ⟨true, .receive 0, ⟨12, 1, 1⟩⟩, ⟨true, .tick, ⟨12, 2, 1⟩⟩, rfl, rfl, rfl⟩
  have before : HappenedBefore events 0 2 := (Relation.TransGen.single message).tail localStep
  have distinct : Function.Injective Bool.toNat := by
    intro left right same
    cases left <;> cases right <;> first | rfl | cases same
  exact ⟨before, (hlc_captures_causality Bool.toNat distinct (fun _ => 10)
    [.send false 12, .receive true 0 3, .tick true 2] (by decide) 0 2
    ⟨false, .send, ⟨12, 0, 0⟩⟩ ⟨true, .tick, ⟨12, 2, 1⟩⟩ rfl rfl).1 before⟩

end Warp.Crdt.Causality
