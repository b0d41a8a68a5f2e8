import Mathlib.Algebra.BigOperators.Group.Finset.Basic
import Mathlib.Algebra.GroupWithZero.Nat
import Mathlib.Algebra.Order.BigOperators.Group.List
import Warp.Foundation.Run

/-! # Replicated contributions

Replicas keep one number for every origin: what they know of its contribution. An origin adds to its
own number, and a replica that receives a publication keeps the larger number of each origin. A
replica never knows more than was contributed and never less than its state includes
(`Contribution.Sound.step`), so a state that includes every contribution knows their sum
(`Contribution.Sound.eq_sum`).
-/

namespace Contribution

open List Function

/-- What a replica knows of each origin: its contribution, and how many of its
single contributions are included. -/
structure Knowledge (Origin : Type*) where
  held : Origin → ℕ
  seen : Origin → ℕ

/-- All replicas, the contributions each of them has made, oldest first, and
everything published so far. -/
@[ext]
structure Net (Origin : Type*) where
  held : Origin → Origin → ℕ
  seen : Origin → Origin → ℕ
  issued : Origin → List ℕ
  published : List (Knowledge Origin)

/-- One step of the replicas. -/
inductive Action (Origin : Type*) where
  | contribute (origin : Origin) (amount : ℕ)
  | publish (origin : Origin)
  | deliver (publication : ℕ) (receiver : Origin)

variable {Origin : Type*} [DecidableEq Origin]

def Net.knowledge (net : Net Origin) (replica : Origin) : Knowledge Origin :=
  ⟨net.held replica, net.seen replica⟩

/-- Receiving a publication keeps the larger number of each origin. -/
def Net.receive (net : Net Origin) (receiver : Origin) (knowledge : Knowledge Origin) :
    Net Origin where
  held := Function.update net.held receiver (net.held receiver ⊔ knowledge.held)
  seen := Function.update net.seen receiver (net.seen receiver ⊔ knowledge.seen)
  issued := net.issued
  published := net.published

/-- One step. A delivery of something never published does nothing. -/
def Net.step (net : Net Origin) : Action Origin → Net Origin
  | .contribute origin amount =>
    { net with
      held := Function.update net.held origin
        (Function.update (net.held origin) origin (net.held origin origin + amount))
      seen := Function.update net.seen origin
        (Function.update (net.seen origin) origin ((net.issued origin).length + 1))
      issued := Function.update net.issued origin (net.issued origin ++ [amount]) }
  | .publish origin => { net with published := net.published ++ [net.knowledge origin] }
  | .deliver publication receiver =>
    match net.published[publication]? with
    | some knowledge => net.receive receiver knowledge
    | none => net

/-- Knowledge that lies between what it includes and what was contributed. -/
def Sound (issued : Origin → List ℕ) (knowledge : Knowledge Origin) : Prop :=
  ∀ origin, knowledge.seen origin ≤ (issued origin).length ∧
    ((issued origin).take (knowledge.seen origin)).sum ≤ knowledge.held origin ∧
    knowledge.held origin ≤ (issued origin).sum

/-- Every replica's and every publication's knowledge is sound, and a replica's own
contributions are all included in its state. -/
structure Net.Sound (net : Net Origin) : Prop where
  replicas : ∀ replica, Contribution.Sound net.issued (net.knowledge replica)
  publications : ∀ knowledge ∈ net.published, Contribution.Sound net.issued knowledge
  own : ∀ replica, net.seen replica replica = (net.issued replica).length

omit [DecidableEq Origin] in
/-- Knowledge that includes every contribution of an origin knows their sum. -/
theorem Sound.eq_sum {issued : Origin → List ℕ} {knowledge : Knowledge Origin}
    (sound : Sound issued knowledge) {origin : Origin}
    (complete : knowledge.seen origin = (issued origin).length) :
    knowledge.held origin = (issued origin).sum := by
  obtain ⟨-, lower, upper⟩ := sound origin
  rw [complete, take_length] at lower
  exact Nat.le_antisymm upper lower

theorem Sound.contribute {issued : Origin → List ℕ} {knowledge : Knowledge Origin}
    (sound : Sound issued knowledge) (contributor : Origin) (amount : ℕ) :
    Sound (Function.update issued contributor (issued contributor ++ [amount])) knowledge := by
  intro origin
  obtain ⟨current, lower, upper⟩ := sound origin
  by_cases same : origin = contributor
  · subst same
    rw [update_self, length_append, take_append_of_le_length current, sum_append]
    exact ⟨by omega, lower, by omega⟩
  · rw [update_of_ne same]
    exact ⟨current, lower, upper⟩

omit [DecidableEq Origin] in
/-- The larger of two sound numbers of each origin is sound. -/
theorem Sound.sup {issued : Origin → List ℕ} {first second : Knowledge Origin}
    (firstSound : Sound issued first) (secondSound : Sound issued second) :
    Sound issued ⟨first.held ⊔ second.held, first.seen ⊔ second.seen⟩ := by
  intro origin
  obtain ⟨firstCurrent, firstLower, firstUpper⟩ := firstSound origin
  obtain ⟨secondCurrent, secondLower, secondUpper⟩ := secondSound origin
  refine ⟨sup_le firstCurrent secondCurrent, ?_, sup_le firstUpper secondUpper⟩
  simp only [Pi.sup_apply]
  rcases le_total (first.seen origin) (second.seen origin) with older | newer
  · rw [sup_eq_right.mpr older]
    exact secondLower.trans le_sup_right
  · rw [sup_eq_left.mpr newer]
    exact firstLower.trans le_sup_left

theorem Net.Sound.step {net : Net Origin} (sound : net.Sound) (action : Action Origin) :
    (net.step action).Sound := by
  cases action with
  | contribute contributor amount =>
    have kept := fun replica => (sound.replicas replica).contribute contributor amount
    refine ⟨fun replica => ?_, fun knowledge member =>
      (sound.publications knowledge member).contribute contributor amount, fun replica => ?_⟩
    · by_cases same : replica = contributor
      · subst same
        intro origin
        by_cases own : origin = replica
        · subst own
          have exact := (sound.replicas origin).eq_sum (sound.own origin)
          simp only [Net.step, Net.knowledge] at exact ⊢
          simp only [update_self, exact, length_append, length_singleton,
            sum_append, sum_singleton, le_refl, and_true, true_and]
          rw [take_of_length_le (by simp), sum_append, sum_singleton]
        · have old := kept replica origin
          simp only [Net.step, Net.knowledge] at old ⊢
          simpa only [update_self, update_of_ne own] using old
      · simpa only [Net.step, Net.knowledge, update_of_ne same] using kept replica
    · by_cases same : replica = contributor
      · subst same
        simp [Net.step]
      · simpa [Net.step, update_of_ne same] using sound.own replica
  | publish origin =>
    refine ⟨sound.replicas, forall_mem_append.mpr ⟨sound.publications, ?_⟩, sound.own⟩
    exact forall_mem_singleton.mpr (sound.replicas origin)
  | deliver publication receiver =>
    cases found : net.published[publication]? with
    | none => simpa [Net.step, found] using sound
    | some knowledge =>
      have received := sound.publications knowledge (mem_of_getElem? found)
      simp only [Net.step, found]
      refine ⟨fun replica => ?_, sound.publications, fun replica => ?_⟩
      · by_cases same : replica = receiver
        · subst same
          simpa [Net.receive, Net.knowledge] using (sound.replicas replica).sup received
        · simpa [Net.receive, Net.knowledge, update_of_ne same] using sound.replicas replica
      · by_cases same : replica = receiver
        · subst same
          simpa [Net.receive, sound.own replica] using (received replica).1
        · simpa [Net.receive, update_of_ne same] using sound.own replica

end Contribution
