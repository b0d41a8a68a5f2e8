import Mathlib.Data.Set.Basic
import Warp.Foundation.Run

/-! # Copies that lag behind a log

Actions are applied to a state in the order of a log, and to a copy later, each once and in any
order. As long as an action only overtakes actions that it commutes with, the copy is what the log
leads to whenever nothing is outstanding (`DelayedReplica.Confluent.alike_after`). Actions commute
if neither writes a cell that the other reads (`DelayedReplica.confluent_of_footprints`).
-/

/-- A state that follows a log, and a copy with the actions that it has not seen. -/
structure DelayedReplica (State Action : Type*) where
  state : State
  copy : State
  pending : List Action

namespace DelayedReplica

variable {State Action : Type*}

inductive Event (Action : Type*) where
  | append (action : Action)
  | catchUp (place : ℕ)

/-- One action enters the log, or one outstanding action is applied to the copy. -/
def step (apply : State → Action → State) (replica : DelayedReplica State Action) :
    Event Action → DelayedReplica State Action
  | .append action => { replica with
      state := apply replica.state action
      pending := replica.pending ++ [action] }
  | .catchUp place =>
    match replica.pending[place]? with
    | some action => { replica with
        copy := apply replica.copy action
        pending := replica.pending.eraseIdx place }
    | none => replica

/-- An action is applied to the copy before actions of an earlier place only if it commutes
with them. -/
def Overtakes (commutes : Action → Action → Prop) (replica : DelayedReplica State Action) :
    Event Action → Prop
  | .append _ => True
  | .catchUp place =>
    ∀ action ∈ replica.pending[place]?, ∀ earlier ∈ replica.pending.take place,
      commutes earlier action

/-- States that cannot be told apart, and actions whose order does not matter. -/
structure Confluent (apply : State → Action → State) (alike : State → State → Prop)
    (commutes : Action → Action → Prop) : Prop where
  equivalence : Equivalence alike
  congr : ∀ {first second}, alike first second → ∀ action,
    alike (apply first action) (apply second action)
  swap : ∀ {first second}, commutes first second → ∀ state,
    alike (apply (apply state first) second) (apply (apply state second) first)

variable {apply : State → Action → State} {alike : State → State → Prop}
  {commutes : Action → Action → Prop}

theorem Confluent.foldl_congr (confluent : Confluent apply alike commutes)
    {first second : State} (same : alike first second) (actions : List Action) :
    alike (actions.foldl apply first) (actions.foldl apply second) := by
  induction actions generalizing first second with
  | nil => exact same
  | cons action rest ih => exact ih (confluent.congr same action)

/-- An action moves to the front of the actions that it commutes with. -/
theorem Confluent.foldl_eraseIdx (confluent : Confluent apply alike commutes)
    {actions : List Action} {place : ℕ} {action : Action} (found : actions[place]? = some action)
    (free : ∀ earlier ∈ actions.take place, commutes earlier action) (state : State) :
    alike ((actions.eraseIdx place).foldl apply (apply state action))
      (actions.foldl apply state) := by
  induction actions generalizing place state with
  | nil => cases found
  | cons head rest ih =>
    cases place with
    | zero =>
      obtain rfl : head = action := Option.some.inj found
      exact confluent.equivalence.refl _
    | succ place =>
      obtain ⟨first, others⟩ := List.forall_mem_cons.mp free
      have swapped := confluent.swap first state
      have front := confluent.foldl_congr (confluent.equivalence.symm swapped) (rest.eraseIdx place)
      exact confluent.equivalence.trans front (ih found others (apply state head))

/-- Applying what is outstanding to the copy leads to the state. -/
def Consistent (apply : State → Action → State) (alike : State → State → Prop)
    (replica : DelayedReplica State Action) : Prop :=
  alike (replica.pending.foldl apply replica.copy) replica.state

section
variable (confluent : Confluent apply alike commutes) {replica : DelayedReplica State Action}
  (consistent : replica.Consistent apply alike)
include confluent consistent

theorem Confluent.consistent_step {event : Event Action}
    (orderly : replica.Overtakes commutes event) :
    (replica.step apply event).Consistent apply alike := by
  cases event with
  | append action =>
    unfold Consistent
    rw [step, List.foldl_append]
    exact confluent.congr consistent action
  | catchUp place =>
    cases found : replica.pending[place]? with
    | none =>
      simp only [step, found]
      exact consistent
    | some action =>
      simp only [step, found]
      have moved := confluent.foldl_eraseIdx found (orderly action found) replica.copy
      exact confluent.equivalence.trans moved consistent

/-- **A copy that is not behind is what the log leads to.** -/
theorem Confluent.alike_after {events : List (Event Action)}
    (orderly : Run.Guarded (step apply) (Overtakes commutes) replica events)
    (done : (Run.after (step apply) replica events).pending = []) :
    alike (Run.after (step apply) replica events).copy
      (Run.after (step apply) replica events).state := by
  have final := Run.invariant (Consistent apply alike)
    (fun _ _ held met => confluent.consistent_step held met) consistent orderly
  rwa [Consistent, done] at final

end

variable {Cell Value : Type*} (view : State → Cell → Value)

/-- No cell can tell the states apart. -/
def Alike (first second : State) : Prop := ∀ cell, view first cell = view second cell

theorem alike_equivalence : Equivalence (Alike view) where
  refl _ _ := rfl
  symm same cell := (same cell).symm
  trans first second cell := (first cell).trans (second cell)

/-- A change writes only some cells, and what it writes depends only on the cells it reads. -/
structure Footprint (change : State → State) (reads writes : Set Cell) : Prop where
  own : writes ⊆ reads
  frame : ∀ state, ∀ cell ∉ writes, view (change state) cell = view state cell
  reading : ∀ first second, (∀ cell ∈ reads, view first cell = view second cell) →
    ∀ cell ∈ writes, view (change first) cell = view (change second) cell

variable {view}

theorem Footprint.alike_change {change : State → State} {reads writes : Set Cell}
    (footprint : Footprint view change reads writes) {first second : State}
    (same : Alike view first second) : Alike view (change first) (change second) := by
  intro cell
  by_cases written : cell ∈ writes
  · exact footprint.reading first second (fun cell _ => same cell) cell written
  · rw [footprint.frame first cell written, footprint.frame second cell written, same cell]

/-- What a change writes is not affected by one that writes none of the cells it reads. -/
theorem Footprint.view_after {change other : State → State} {reads writes otherReads
    otherWrites : Set Cell} (footprint : Footprint view change reads writes)
    (unaffected : Footprint view other otherReads otherWrites)
    (apart : ∀ cell ∈ otherWrites, cell ∉ reads) (state : State) {cell : Cell}
    (written : cell ∈ writes) :
    view (change (other state)) cell = view (other (change state)) cell := by
  have kept : ∀ cell ∈ reads, view (other state) cell = view state cell := by
    intro cell read
    exact unaffected.frame state cell fun changed => apart cell changed read
  have elsewhere : cell ∉ otherWrites := fun changed => apart cell changed (footprint.own written)
  rw [footprint.reading _ _ kept cell written, unaffected.frame _ cell elsewhere]

theorem confluent_of_footprints {reads writes : Action → Set Cell}
    (footprint : ∀ action, Footprint view (apply · action) (reads action) (writes action))
    (apart : ∀ {first second}, commutes first second →
      (∀ cell ∈ writes first, cell ∉ reads second) ∧ ∀ cell ∈ writes second, cell ∉ reads first) :
    Confluent apply (Alike view) commutes where
  equivalence := alike_equivalence view
  congr same action := (footprint action).alike_change same
  swap := by
    intro first second separate state cell
    obtain ⟨left, right⟩ := apart separate
    by_cases byFirst : cell ∈ writes first
    · exact ((footprint first).view_after (footprint second) right state byFirst).symm
    · by_cases bySecond : cell ∈ writes second
      · exact (footprint second).view_after (footprint first) left state bySecond
      · rw [(footprint second).frame _ cell bySecond, (footprint first).frame _ cell byFirst,
          (footprint first).frame _ cell byFirst, (footprint second).frame _ cell bySecond]

end DelayedReplica
