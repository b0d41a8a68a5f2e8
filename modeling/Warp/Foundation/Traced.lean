import Warp.Foundation.Outcome

/-! # Calls that make requests

A call makes requests to its surroundings, which see all earlier requests and may refuse; a refusal,
an error or a panic ends the call, and the requests made until then remain. What holds of every
request is proved along the steps of a call (`Traced.only_bind`, `Traced.only_forEach`,
`Traced.mem_forEach`).
-/

/-- A call: given the requests before it, what it ends in and the requests it makes. -/
def Traced (Request Failure Value : Type*) := List Request → Outcome Failure Value × List Request

namespace Traced

open List

universe u

variable {Request Failure Item : Type*} {Value Result : Type u} {value : Value} (failure : Failure)
  {made : Request} {next : Value → Traced Request Failure Result}
  {first : Traced Request Failure Value} {handle : Failure → Traced Request Failure Value}

/-- Continue with the value, if there is one. -/
protected def bind (first : Traced Request Failure Value)
    (next : Value → Traced Request Failure Result) : Traced Request Failure Result :=
  fun history =>
    match first history with
    | (.ok value, made) =>
      ((next value (history ++ made)).1, made ++ (next value (history ++ made)).2)
    | (.error failure, made) => (.error failure, made)
    | (.panic, made) => (.panic, made)

instance : Monad (Traced Request Failure) where
  pure value _ := (.ok value, [])
  bind := Traced.bind

/-- A call that makes no request. -/
def ofOutcome (outcome : Outcome Failure Value) : Traced Request Failure Value :=
  fun _ => (outcome, [])

/-- Make a request and end in the answer. -/
def request (answer : List Request → Request → Outcome Failure Value) (made : Request) :
    Traced Request Failure Value :=
  fun history => (answer history made, [made])

/-- Make a request and ignore the answer. -/
def attempt (made : Request) : Traced Request Failure PUnit := fun _ => (.ok ⟨⟩, [made])

/-- Continue with a handler for the error, if there is one. -/
def recover (call : Traced Request Failure Value)
    (handle : Failure → Traced Request Failure Value) : Traced Request Failure Value :=
  fun history =>
    match call history with
    | (.ok value, made) => (.ok value, made)
    | (.error failure, made) =>
      ((handle failure (history ++ made)).1, made ++ (handle failure (history ++ made)).2)
    | (.panic, made) => (.panic, made)

/-- Make a call for every item in turn. -/
def forEach (call : Item → Traced Request Failure PUnit.{u + 1}) :
    List Item → Traced Request Failure PUnit.{u + 1}
  | [] => pure ⟨⟩
  | item :: rest => (call item).bind fun _ => forEach call rest

/-- Every request of a call has a property. -/
def Only (holds : Request → Prop) (call : Traced Request Failure Value) : Prop :=
  ∀ history, ∀ made ∈ (call history).2, holds made

/-- Every request of a call made after some requests has a property. -/
def OnlyAfter (history : List Request) (holds : Request → Prop)
    (call : Traced Request Failure Value) : Prop :=
  ∀ made ∈ (call history).2, holds made

@[simp] theorem bind_eq (first : Traced Request Failure Value)
    (next : Value → Traced Request Failure Result) : (first >>= next) = first.bind next := rfl

section
variable {first : Traced Request Failure Value} {next : Value → Traced Request Failure Result}
  {history : List Request}

theorem bind_of_ok {made : List Request} (succeeds : first history = (.ok value, made)) :
    first.bind next history =
      ((next value (history ++ made)).1, made ++ (next value (history ++ made)).2) := by
  simp only [Traced.bind, succeeds]

@[simp] theorem ofOutcome_ok_bind (value : Value) :
    (ofOutcome (.ok value) : Traced Request Failure Value).bind next = next value := by
  funext history
  simp [Traced.bind, ofOutcome]

@[simp] theorem ofOutcome_error_bind :
    (ofOutcome (.error failure) : Traced Request Failure Value).bind next =
      ofOutcome (.error failure) :=
  rfl

theorem mem_bind_left (member : made ∈ (first history).2) :
    made ∈ (first.bind next history).2 := by
  unfold Traced.bind
  split <;> simp_all

theorem bind_fst_eq_ok {result : Result} (succeeds : (first.bind next history).1 = .ok result) :
    ∃ value made, first history = (.ok value, made) ∧
      (next value (history ++ made)).1 = .ok result := by
  unfold Traced.bind at succeeds
  split at succeeds
  next value made ended => exact ⟨value, made, ended, succeeds⟩
  next => cases succeeds
  next => cases succeeds

end

/-- A call that does not panic. -/
def Settles (call : Traced Request Failure Value) : Prop := ∀ history, (call history).1 ≠ .panic

theorem settles_pure (value : Value) : Settles (pure value : Traced Request Failure Value) :=
  fun _ => nofun

theorem settles_ofExcept (result : Except Failure Value) :
    Settles (ofOutcome (.ofExcept result) : Traced Request Failure Value) :=
  fun _ => Outcome.ofExcept_ne_panic result

theorem settles_error :
    Settles (ofOutcome (.error failure) : Traced Request Failure Value) :=
  fun _ => nofun

theorem settles_request {answer : List Request → Request → Except Failure Value} :
    Settles (request (fun history made => .ofExcept (answer history made)) made) :=
  fun history => Outcome.ofExcept_ne_panic (answer history made)

theorem settles_bind (before : Settles first) (after : ∀ value, Settles (next value)) :
    Settles (first.bind next) := by
  intro history
  have settled := before history
  unfold Traced.bind
  split
  next value earlier ended => exact after value _
  next failure earlier ended => exact nofun
  next earlier ended =>
    rw [ended] at settled
    exact absurd rfl settled

/-- A call that is handled ends in a value where the call and the handler agree on it. -/
theorem recover_fst_eq_ok {call : Traced Request Failure Value} (settles : Settles call)
    (ends : ∀ history result, (call history).1 = .ok result → result = value)
    (handled : ∀ failure history, (handle failure history).1 = .ok value) (history : List Request) :
    (call.recover handle history).1 = .ok value := by
  have settled := settles history
  have known := ends history
  unfold recover
  split
  next result earlier ended =>
    rw [ended] at known
    rw [known result rfl]
  next failure earlier ended => exact handled failure _
  next earlier ended =>
    rw [ended] at settled
    exact absurd rfl settled

variable {holds : Request → Prop} (outcome : Outcome Failure Value)
  {answer : List Request → Request → Outcome Failure Value}
  {call : Item → Traced Request Failure PUnit.{u + 1}}

theorem only_pure (value : Value) : Only holds (pure value : Traced Request Failure Value) :=
  fun _ _ member => absurd member not_mem_nil

theorem only_ofOutcome :
    Only holds (ofOutcome outcome : Traced Request Failure Value) :=
  fun _ _ member => absurd member not_mem_nil

theorem only_request (allowed : holds made) : Only holds (request answer made) :=
  fun _ _ member => mem_singleton.mp member ▸ allowed

theorem only_attempt (allowed : holds made) :
    Only holds (attempt made : Traced Request Failure PUnit) :=
  fun _ _ member => mem_singleton.mp member ▸ allowed

/-- The second step may use what the first one ended in. -/
theorem only_bind (before : Only holds first)
    (after : ∀ history value, (first history).1 = .ok value → Only holds (next value)) :
    Only holds (first.bind next) := by
  intro history made member
  have kept := before history
  unfold Traced.bind at member
  split at member
  next value earlier ended =>
    rw [ended] at kept
    rcases mem_append.mp member with old | new
    · exact kept made old
    · exact after history value (by rw [ended]) _ made new
  next earlier ended =>
    rw [ended] at kept
    exact kept made member
  next earlier ended =>
    rw [ended] at kept
    exact kept made member

section After
variable {history : List Request} {first : Traced Request Failure Value}

theorem onlyAfter_ofOutcome :
    OnlyAfter history holds (ofOutcome outcome : Traced Request Failure Value) :=
  only_ofOutcome outcome history

theorem onlyAfter_request_iff : OnlyAfter history holds (request answer made) ↔ holds made :=
  forall_mem_singleton

section
variable {next : Value → Traced Request Failure Result}

theorem OnlyAfter.left (both : OnlyAfter history holds (first.bind next)) :
    OnlyAfter history holds first :=
  fun made member => both made (mem_bind_left member)

theorem OnlyAfter.right (both : OnlyAfter history holds (first.bind next))
    (succeeds : (first history).1 = .ok value) :
    OnlyAfter (history ++ (first history).2) holds (next value) := by
  intro made member
  apply both
  rw [bind_of_ok (Prod.ext succeeds rfl)]
  exact mem_append_right _ member

/-- Where the second step makes only such requests, the first one decides. -/
theorem onlyAfter_bind_iff (after : ∀ value, Only holds (next value)) :
    OnlyAfter history holds (first.bind next) ↔ OnlyAfter history holds first := by
  unfold OnlyAfter Traced.bind
  split
  next value earlier ended =>
    rw [ended, forall_mem_append]
    exact and_iff_left (after value _)
  next ended => rw [ended]
  next ended => rw [ended]

end

/-- Where the handler makes only such requests, the handled call decides. -/
theorem onlyAfter_recover_iff (after : ∀ failure, Only holds (handle failure)) :
    OnlyAfter history holds (first.recover handle) ↔ OnlyAfter history holds first := by
  unfold OnlyAfter recover
  split
  next ended => rw [ended]
  next failure earlier ended =>
    rw [ended, forall_mem_append]
    exact and_iff_left (after failure _)
  next ended => rw [ended]

end After

/-- A turn of a loop may use that the turns before it succeeded. -/
theorem only_forEach {items : List Item}
    (turns : ∀ before item after, items = before ++ item :: after →
      (∀ earlier ∈ before, ∃ history, (call earlier history).1 = .ok ⟨⟩) →
      Only holds (call item)) : Only holds (forEach call items) := by
  induction items with
  | nil => exact only_pure _
  | cons item rest ih =>
    refine only_bind (turns [] item rest rfl (by simp)) fun history value succeeds => ih ?_
    rintro before other after rfl earlier
    refine turns (item :: before) other after rfl ?_
    exact forall_mem_cons.mpr ⟨⟨history, succeeds⟩, earlier⟩

/-- The requests of a turn that is reached are requests of the loop. -/
theorem mem_forEach {before after : List Item} {item : Item}
    (reached : ∀ earlier ∈ before, ∀ history, (call earlier history).1 = .ok ⟨⟩)
    (member : ∀ history, made ∈ (call item history).2) (history : List Request) :
    made ∈ (forEach call (before ++ item :: after) history).2 := by
  induction before generalizing history with
  | nil => exact mem_bind_left (member history)
  | cons earlier rest ih =>
    have succeeds := reached earlier mem_cons_self history
    rw [cons_append, forEach, bind_of_ok (Prod.ext succeeds rfl)]
    exact mem_append_right _ (ih (forall_mem_of_forall_mem_cons reached) _)

end Traced
