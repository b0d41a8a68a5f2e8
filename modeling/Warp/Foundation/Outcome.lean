import Mathlib.Data.List.Forall2

/-! # Outcomes of a call

A call returns a value, returns an error, or panics. Outcomes compose as a monad in
which the first error or panic ends the computation (`Outcome.bind_eq_ok_iff`,
`Outcome.bind_ne_panic_iff`), and a loop over a list collects the results of its
turns (`Outcome.forEach`).
-/

/-- What a call ends in. -/
inductive Outcome (Failure Value : Type*) where
  | ok (value : Value)
  | error (failure : Failure)
  | panic
deriving DecidableEq

namespace Outcome

universe u

variable {Failure Item : Type*} {Value Result : Type u} {outcome : Outcome Failure Value}
  {next : Value → Outcome Failure Result} {failure : Failure} {condition : Prop}
  {result : Except Failure Value} (value : Value)

/-- Continue with the value, if there is one. -/
protected def bind (outcome : Outcome Failure Value) (next : Value → Outcome Failure Result) :
    Outcome Failure Result :=
  match outcome with
  | ok value => next value
  | error failure => error failure
  | panic => panic

instance : Monad (Outcome Failure) where
  pure := ok
  bind := Outcome.bind

/-- Fail unless a condition holds. -/
def require (condition : Prop) [Decidable condition] (failure : Failure) : Outcome Failure Unit :=
  if condition then ok () else error failure

/-- A fallible result that cannot panic. -/
def ofExcept : Except Failure Value → Outcome Failure Value
  | .ok value => ok value
  | .error failure => error failure

/-- Run a call for every item in turn and collect the results. -/
def forEach (call : Item → Outcome Failure Value) : List Item → Outcome Failure (List Value)
  | [] => ok []
  | item :: rest =>
    (call item).bind fun value => (forEach call rest).bind fun values => ok (value :: values)

/-- There is a value that passes a check. -/
def succeedsWith (outcome : Outcome Failure Value) (check : Value → Bool) : Bool :=
  match outcome with
  | ok value => check value
  | error _ | panic => false

@[simp] theorem pure_eq : (pure value : Outcome Failure Value) = ok value := rfl

@[simp] theorem bind_eq (outcome : Outcome Failure Value)
    (next : Value → Outcome Failure Result) : (outcome >>= next) = outcome.bind next := rfl

@[simp] theorem ok_bind (next : Value → Outcome Failure Result) :
    (ok value).bind next = next value := rfl

@[simp] theorem error_bind (failure : Failure) (next : Value → Outcome Failure Result) :
    (error failure : Outcome Failure Value).bind next = error failure := rfl

@[simp] theorem panic_bind (next : Value → Outcome Failure Result) :
    (panic : Outcome Failure Value).bind next = panic := rfl

theorem bind_assoc {Last : Type u} (outcome : Outcome Failure Value)
    (next : Value → Outcome Failure Result) (last : Result → Outcome Failure Last) :
    (outcome.bind next).bind last = outcome.bind fun value => (next value).bind last := by
  cases outcome <;> rfl

theorem bind_eq_ok_iff {result : Result} :
    outcome.bind next = ok result ↔ ∃ value, outcome = ok value ∧ next value = ok result := by
  cases outcome <;> simp

theorem bind_ne_panic_iff :
    outcome.bind next ≠ panic ↔
      outcome ≠ panic ∧ ∀ value, outcome = ok value → next value ≠ panic := by
  cases outcome <;> simp

@[simp] theorem require_eq_ok_iff [Decidable condition] {done : Unit} :
    require condition failure = ok done ↔ condition := by
  unfold require
  split <;> simp_all

@[simp] theorem require_ne_panic [Decidable condition] :
    require condition failure ≠ panic := by
  unfold require
  split <;> simp

@[simp] theorem ofExcept_ne_panic (result : Except Failure Value) : ofExcept result ≠ panic := by
  cases result <;> simp [ofExcept]

@[simp] theorem ofExcept_eq_ok_iff {value : Value} :
    ofExcept result = ok value ↔ result = .ok value := by
  cases result <;> simp [ofExcept]

theorem mapError_eq_ok_iff {Other : Type*} {result : Except Other Value}
    {translate : Other → Failure} {value : Value} :
    result.mapError translate = .ok value ↔ result = .ok value := by
  cases result <;> simp [Except.mapError]

theorem except_bind_eq_ok_iff {next : Value → Except Failure Result} {last : Result} :
    (result >>= next) = .ok last ↔ ∃ value, result = .ok value ∧ next value = .ok last := by
  cases result <;> simp [bind, Except.bind]

theorem except_isOk_iff :
    result.isOk = true ↔ ∃ value, result = .ok value := by
  cases result <;> simp [Except.isOk, Except.toBool]

theorem forEach_eq_ok_iff (call : Item → Outcome Failure Value) (items : List Item)
    (values : List Value) :
    forEach call items = ok values ↔ List.Forall₂ (fun item value => call item = ok value)
      items values := by
  induction items generalizing values with
  | nil =>
    simp only [forEach, ok.injEq, List.forall₂_nil_left_iff]
    exact eq_comm
  | cons item rest ih =>
    simp only [forEach, bind_eq_ok_iff, ok.injEq, List.forall₂_cons_left_iff, ih]
    constructor
    · rintro ⟨value, called, values, others, rfl⟩
      exact ⟨value, values, called, others, rfl⟩
    · rintro ⟨value, values, called, others, rfl⟩
      exact ⟨value, called, values, others, rfl⟩

end Outcome
