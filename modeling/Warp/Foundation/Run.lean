import Mathlib.Data.List.Basic
import Mathlib.Order.Lattice

/-! # Runs of a step function

What every guarded step preserves holds after every run whose steps all meet the guard
(`Run.invariant`). Where the guard says precisely which steps preserve a property, it holds
throughout a run exactly if the run is guarded (`Run.throughout_iff_guarded`).
-/

namespace Run

variable {State Action : Type*} (step : State → Action → State)

/-- The state after a list of actions. -/
def after (start : State) (actions : List Action) : State :=
  actions.foldl step start

/-- Every action of the run meets the guard in the state it is taken in. -/
def Guarded (guard : State → Action → Prop) : State → List Action → Prop
  | _, [] => True
  | state, action :: rest => guard state action ∧ Guarded guard (step state action) rest

instance decidableGuarded (guard : State → Action → Prop)
    [∀ state action, Decidable (guard state action)] :
    ∀ start actions, Decidable (Guarded step guard start actions)
  | _, [] => inferInstanceAs (Decidable True)
  | start, action :: rest =>
    have := decidableGuarded guard (step start action) rest
    inferInstanceAs (Decidable (guard start action ∧ Guarded step guard (step start action) rest))

/-- A property of every state the run goes through. -/
def Throughout (holds : State → Prop) : State → List Action → Prop
  | state, [] => holds state
  | state, action :: rest => holds state ∧ Throughout holds (step state action) rest

@[simp] theorem after_nil (start : State) : after step start [] = start := rfl

@[simp] theorem after_cons (start : State) (action : Action) (rest : List Action) :
    after step start (action :: rest) = after step (step start action) rest := rfl

theorem after_append (start : State) (first second : List Action) :
    after step start (first ++ second) = after step (after step start first) second :=
  List.foldl_append

variable {step} {actions : List Action} {first second : State → Action → Prop} {start : State}
  {guard : State → Action → Prop} (holds : State → Prop)

theorem guarded_of_forall (always : ∀ action ∈ actions, ∀ state, guard state action) (start : State) :
    Guarded step guard start actions := by
  induction actions generalizing start with
  | nil => trivial
  | cons action rest ih =>
    obtain ⟨first, others⟩ := List.forall_mem_cons.mp always
    exact ⟨first start, ih others (step start action)⟩

theorem Guarded.and (meetsFirst : Guarded step first start actions)
    (meetsSecond : Guarded step second start actions) :
    Guarded step (fun state action => first state action ∧ second state action) start actions := by
  induction actions generalizing start with
  | nil => trivial
  | cons action rest ih =>
    exact ⟨⟨meetsFirst.1, meetsSecond.1⟩, ih meetsFirst.2 meetsSecond.2⟩

/-- An invariant of guarded steps is an invariant of guarded runs. -/
theorem invariant
    (preserved : ∀ state action, holds state → guard state action → holds (step state action))
    (initially : holds start) (guarded : Guarded step guard start actions) :
    holds (after step start actions) := by
  induction actions generalizing start with
  | nil => exact initially
  | cons action rest ih => exact ih (preserved start action initially guarded.1) guarded.2

theorem invariant_of_step (preserved : ∀ state action, holds state → holds (step state action))
    (initially : holds start) (actions : List Action) :
    holds (after step start actions) := by
  induction actions generalizing start with
  | nil => exact initially
  | cons action rest ih => exact ih (preserved start action initially)

theorem guarded_imp
    (implies : ∀ state action, holds state → first state action → second state action)
    (preserved : ∀ state action, holds state → first state action → holds (step state action))
    (initially : holds start) (guarded : Guarded step first start actions) :
    Guarded step second start actions := by
  induction actions generalizing start with
  | nil => trivial
  | cons action rest ih =>
    exact ⟨implies start action initially guarded.1,
      ih (preserved start action initially guarded.1) guarded.2⟩

theorem guarded_congr
    (agree : ∀ state action, holds state → (first state action ↔ second state action))
    (preserved : ∀ state action, holds state → second state action → holds (step state action))
    (initially : holds start) (actions : List Action) :
    Guarded step first start actions ↔ Guarded step second start actions := by
  constructor
  · refine guarded_imp holds (fun state action held => (agree state action held).mp) ?_ initially
    intro state action held met
    exact preserved state action held ((agree state action held).mp met)
  · exact guarded_imp holds (fun state action held => (agree state action held).mpr) preserved
      initially

section
variable {Other OtherAction : Type*} {otherStep : Other → OtherAction → Other}
  {view : State → Other} {translate : Action → OtherAction}

theorem view_after
    (simulates : ∀ state action, view (step state action) = otherStep (view state)
      (translate action)) (start : State) (actions : List Action) :
    view (after step start actions) = after otherStep (view start) (actions.map translate) := by
  induction actions generalizing start with
  | nil => rfl
  | cons action rest ih =>
    rw [after_cons, ih, simulates, List.map_cons, after_cons]

theorem Guarded.simulate
    (simulates : ∀ state action, view (step state action) = otherStep (view state)
      (translate action)) {otherGuard : Other → OtherAction → Prop}
    (translates : ∀ state action, guard state action → otherGuard (view state) (translate action))
    {start : State} {actions : List Action} (guarded : Guarded step guard start actions) :
    Guarded otherStep otherGuard (view start) (actions.map translate) := by
  induction actions generalizing start with
  | nil => trivial
  | cons action rest ih =>
    refine ⟨translates start action guarded.1, ?_⟩
    rw [← simulates]
    exact ih guarded.2

end

theorem throughout_iff (start : State) (actions : List Action) :
    Throughout step holds start actions ↔
      holds start ∧ Guarded step (fun state action => holds (step state action)) start actions := by
  induction actions generalizing start with
  | nil => exact (and_iff_left trivial).symm
  | cons action rest ih => exact and_congr_right fun _ => ih (step start action)

/-- A property that holds after a step exactly if the step meets the guard. -/
theorem throughout_iff_guarded (holds kept : State → Prop)
    (always : ∀ state action, kept state → kept (step state action))
    (exactly : ∀ state action, kept state → holds state →
      (holds (step state action) ↔ guard state action)) {start : State} (initially : holds start)
    (initiallyKept : kept start) (actions : List Action) :
    Throughout step holds start actions ↔ Guarded step guard start actions := by
  rw [throughout_iff, and_iff_right initially]
  apply guarded_congr (fun state => kept state ∧ holds state)
  · intro state action both
    exact exactly state action both.1 both.2
  · intro state action both met
    exact ⟨always state action both.1, (exactly state action both.1 both.2).mpr met⟩
  · exact ⟨initiallyKept, initially⟩

section Merge
variable {View : Type*} {merge : State → State → State}

/-- What a merge joins is joined over everything that is merged. -/
theorem view_after_le_iff [SemilatticeSup View] (view : State → View)
    (joins : ∀ state other, view (merge state other) = view state ⊔ view other)
    (base : State) (others : List State) (bound : View) :
    view (after merge base others) ≤ bound ↔ ∀ state ∈ base :: others, view state ≤ bound := by
  induction others generalizing base with
  | nil => rw [after_nil, List.forall_mem_singleton]
  | cons other rest ih =>
    rw [after_cons, ih, List.forall_mem_cons, joins, sup_le_iff, and_assoc, List.forall_mem_cons,
      List.forall_mem_cons]

theorem after_mem (either : ∀ state other, merge state other = state ∨ merge state other = other)
    (base : State) (others : List State) : after merge base others ∈ base :: others := by
  induction others generalizing base with
  | nil => exact List.mem_cons_self
  | cons other rest ih =>
    have merged := ih (merge base other)
    rw [after_cons]
    rcases either base other with own | taken
    · rw [own] at merged ⊢
      exact List.cons_subset_cons base (List.subset_cons_self other rest) merged
    · rw [taken] at merged ⊢
      exact List.mem_cons_of_mem base merged

end Merge

end Run
