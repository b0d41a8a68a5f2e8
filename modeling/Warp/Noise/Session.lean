import Mathlib.Data.List.Nodup
import Warp.Foundation.Run
import Warp.Foundation.SlidingBitmap

/-! # Replay protection of a transport session

A session keeps the highest counter it received and a bitmap of 128 positions from it
downwards. The bitmap records the counters accepted so far
(`Receipts.exact_after`), so that a counter is accepted exactly if it was not
accepted before and lies above the window's lower end (`replay_window_exact`).
-/

namespace Warp.Noise

open List SlidingBitmap UInt64

structure Session where
  recvCounter : UInt64
  recvBitmap : BitVec 128
deriving DecidableEq

variable {counter : UInt64}

namespace Session

def new : Session := ⟨0, 0⟩

/-- Check and update replay protection state. Whether the counter is acceptable (not a
replay). -/
def checkAndUpdateReplay (session : Session) (counter : UInt64) : Bool × Session :=
  let highest := session.recvCounter
  if counter > highest then
    let diff := counter - highest
    -- A jump over the whole window leaves the new counter only.
    let bitmap := if diff ≥ 128 then 1#128 else session.recvBitmap <<< diff.toNat ||| 1#128
    (true, { recvBitmap := bitmap, recvCounter := counter })
  else if highest - counter ≥ 128 then (false, session)
  else
    let pos := highest - counter
    if session.recvBitmap >>> pos.toNat &&& 1#128 == 1#128 then (false, session)
    else (true, { session with recvBitmap := session.recvBitmap ||| 1#128 <<< pos.toNat })

variable (session : Session)

/-- What a check does: a higher counter moves the window, one below the window is refused, and
one inside it is taken if its bit is not set. -/
theorem checkAndUpdateReplay_cases (counter : UInt64) :
    (∃ distance, 0 < distance ∧ session.recvCounter.toNat + distance = counter.toNat ∧
      session.checkAndUpdateReplay counter = (true, ⟨counter,
        if 128 ≤ distance then 1#128 else session.recvBitmap <<< distance ||| 1#128⟩)) ∨
    (counter.toNat + 128 ≤ session.recvCounter.toNat ∧
      session.checkAndUpdateReplay counter = (false, session)) ∨
    ∃ place < 128, counter.toNat + place = session.recvCounter.toNat ∧
      session.checkAndUpdateReplay counter =
        if session.recvBitmap.getLsbD place then (false, session)
        else (true, { session with recvBitmap := session.recvBitmap ||| 1#128 <<< place }) := by
  by_cases higher : session.recvCounter < counter
  · have above := lt_iff_toNat_lt.mp higher
    have distance := UInt64.toNat_sub_of_le _ _ (UInt64.le_of_lt higher)
    refine .inl ⟨counter.toNat - session.recvCounter.toNat, by omega, by omega, ?_⟩
    simp only [checkAndUpdateReplay, gt_iff_lt, higher, if_true, ge_iff_le,
      le_iff_toNat_le, distance]
    rfl
  · have bounded := UInt64.not_lt.mp higher
    have below := le_iff_toNat_le.mp bounded
    have distance := UInt64.toNat_sub_of_le _ _ bounded
    by_cases old : 128 ≤ session.recvCounter - counter
    · have far := le_iff_toNat_le.mp old
      rw [distance] at far
      refine .inr (.inl ⟨?_, ?_⟩)
      · change 128 ≤ _ at far
        omega
      · simp [checkAndUpdateReplay, higher, old]
    · have near := mt le_iff_toNat_le.mpr old
      rw [distance] at near
      change ¬ 128 ≤ _ at near
      refine .inr (.inr ⟨session.recvCounter.toNat - counter.toNat, by omega, by omega, ?_⟩)
      simp [checkAndUpdateReplay, higher, old, distance, shifted_and_one_eq_one_iff (show 0 < 128 by
        decide)]

/-- A counter above the highest one received, or one of the window whose bit is not set. -/
def Acceptable (session : Session) (counter : UInt64) : Prop :=
  session.recvCounter.toNat < counter.toNat + 128 ∧
    (session.recvCounter.toNat < counter.toNat ∨
      session.recvBitmap.getLsbD (session.recvCounter.toNat - counter.toNat) = false)
  deriving Decidable

theorem checkAndUpdateReplay_fst_iff (counter : UInt64) :
    (session.checkAndUpdateReplay counter).1 = true ↔ session.Acceptable counter := by
  rcases session.checkAndUpdateReplay_cases counter with
    ⟨distance, positive, above, checked⟩ | ⟨old, checked⟩ | ⟨place, near, within, checked⟩
  · rw [checked]
    exact iff_of_true rfl ⟨by omega, .inl (by omega)⟩
  · rw [checked]
    refine iff_of_false Bool.false_ne_true ?_
    rintro ⟨window, -⟩
    omega
  · have same : session.recvCounter.toNat - counter.toNat = place := by omega
    rw [checked, Acceptable, same]
    cases session.recvBitmap.getLsbD place with
    | true =>
      simp only [if_true, Bool.false_eq_true, Bool.true_eq_false, or_false, false_iff]; omega
    | false => simp only [Bool.false_eq_true, if_false, or_true, and_true, true_iff]; omega

/-- The bit of a position says whether its counter was received. -/
def Marked (session : Session) (position : ℕ) : Prop :=
  ∃ place < 128, position + place = session.recvCounter.toNat ∧
    session.recvBitmap.getLsbD place = true

theorem acceptable_iff (counter : UInt64) :
    session.Acceptable counter ↔
      session.recvCounter.toNat < counter.toNat + 128 ∧ ¬ session.Marked counter.toNat := by
  refine and_congr_right fun window => ?_
  constructor
  · rintro (higher | clear) ⟨place, -, below, set⟩
    · omega
    · obtain rfl : session.recvCounter.toNat - counter.toNat = place := by omega
      exact Bool.false_ne_true (clear.symm.trans set)
  · intro unmarked
    by_contra refused
    obtain ⟨low, set⟩ := not_or.mp refused
    exact unmarked ⟨_, by omega, by omega, Bool.eq_true_of_not_eq_false set⟩

theorem marked_advance {session : Session} {distance : ℕ} (positive : 0 < distance)
    (above : session.recvCounter.toNat + distance = counter.toNat) {position : ℕ}
    (window : counter.toNat < position + 128) :
    Marked ⟨counter, if 128 ≤ distance then 1#128
        else session.recvBitmap <<< distance ||| 1#128⟩ position ↔
      position = counter.toNat ∨ session.Marked position := by
  constructor
  · rintro ⟨place, near, below, set⟩
    by_cases here : place = 0
    · exact .inl (by simp only [here] at below; exact below)
    · simp only [apply_ite (BitVec.getLsbD · place), BitVec.getLsbD_or, BitVec.getLsbD_shiftLeft,
        BitVec.getLsbD_one, here, decide_false, Bool.and_false, Bool.or_false] at set
      split at set
      · exact absurd set Bool.false_ne_true
      · simp only [near, decide_true, Bool.true_and, Bool.and_eq_true, Bool.not_eq_true',
          decide_eq_false_iff_not, Nat.not_lt] at set
        simp only at below
        exact .inr ⟨place - distance, by omega, by omega, set.2⟩
  · rintro (rfl | ⟨place, near, below, set⟩)
    · exact ⟨0, by omega, rfl, by split <;> simp⟩
    · refine ⟨place + distance, by omega, by simp only; omega, ?_⟩
      rw [if_neg (by omega)]
      simp [set]
      omega

theorem marked_mark {session : Session} {place : ℕ} (near : place < 128)
    (within : counter.toNat + place = session.recvCounter.toNat) (position : ℕ) :
    Marked { session with recvBitmap := session.recvBitmap ||| 1#128 <<< place } position ↔
      position = counter.toNat ∨ session.Marked position := by
  constructor
  · rintro ⟨other, inside, below, set⟩
    by_cases here : other = place
    · exact .inl (by simp only at below; omega)
    · refine .inr ⟨other, inside, below, ?_⟩
      have apart : ¬ (place ≤ other ∧ other - place = 0) := by omega
      simpa [inside, apart] using set
  · rintro (rfl | ⟨other, inside, below, set⟩)
    · exact ⟨place, near, within, by simp [near]⟩
    · exact ⟨other, inside, below, by simp [set]⟩

/-- A counter that differs from a checked one and is less than a window below it. -/
def Spares (checked counter : UInt64) : Prop :=
  counter ≠ checked ∧ checked.toNat < counter.toNat + 128
  deriving Decidable

/-- After a counter has been checked, it is no longer acceptable, nor are those at least a
window below it; the others are as before. -/
theorem acceptable_checkAndUpdateReplay_iff (checked counter : UInt64) :
    (session.checkAndUpdateReplay checked).2.Acceptable counter ↔
      session.Acceptable counter ∧ Spares checked counter := by
  rw [acceptable_iff, acceptable_iff, Spares, ne_eq, ← UInt64.toNat_inj]
  rcases session.checkAndUpdateReplay_cases checked with
    ⟨distance, positive, above, result⟩ | ⟨old, result⟩ | ⟨place, near, within, result⟩
  · rw [result]
    by_cases window : checked.toNat < counter.toNat + 128
    · have earlier : session.recvCounter.toNat < counter.toNat + 128 := by omega
      simp only [marked_advance positive above window, window, earlier, true_and, not_or, and_comm]
    · simp [window]
  · rw [result]
    refine (and_iff_left_of_imp ?_).symm
    rintro ⟨window, -⟩
    simp only at window
    omega
  · have bounded : session.recvCounter.toNat < counter.toNat + 128 →
        checked.toNat < counter.toNat + 128 := by omega
    rw [result]
    cases bit : session.recvBitmap.getLsbD place with
    | true =>
      refine (and_iff_left_of_imp ?_).symm
      rintro ⟨window, unmarked⟩
      refine ⟨?_, bounded window⟩
      intro same
      exact unmarked ⟨place, near, same ▸ within, bit⟩
    | false =>
      simp only [Bool.false_eq_true, if_false, marked_mark near within, not_or]
      tauto

/-- The highest counter is at least the one before and the checked one. -/
theorem le_recvCounter_checkAndUpdateReplay (counter : UInt64) :
    session.recvCounter.toNat ≤ (session.checkAndUpdateReplay counter).2.recvCounter.toNat ∧
      counter.toNat ≤ (session.checkAndUpdateReplay counter).2.recvCounter.toNat := by
  rcases session.checkAndUpdateReplay_cases counter with
    ⟨distance, positive, above, result⟩ | ⟨old, result⟩ | ⟨place, near, within, result⟩
  · rw [result]
    simp only
    omega
  · rw [result]
    simp only
    omega
  · rw [result]
    split
    · simp only
      omega
    · simp only
      omega

theorem acceptable_new (counter : UInt64) : Acceptable .new counter :=
  ⟨Nat.lt_of_lt_of_le (by decide) (Nat.le_add_left 128 _), .inr (by simp [new])⟩

end Session

structure Receipts where
  session : Session
  accepted : List UInt64

namespace Receipts

def start : Receipts := ⟨.new, []⟩

def receive (receipts : Receipts) (counter : UInt64) : Receipts :=
  let (acceptable, session) := receipts.session.checkAndUpdateReplay counter
  ⟨session, if acceptable then receipts.accepted ++ [counter] else receipts.accepted⟩

def highest (receipts : Receipts) : ℕ := (receipts.accepted.map UInt64.toNat).foldl max 0

def seen (receipts : Receipts) : Set ℕ :=
  {position | ∃ counter ∈ receipts.accepted, counter.toNat = position}

variable {receipts : Receipts}

theorem mem_seen_iff :
    counter.toNat ∈ receipts.seen ↔ counter ∈ receipts.accepted := by
  constructor
  · rintro ⟨other, member, same⟩
    exact UInt64.toNat_inj.mp same ▸ member
  · intro member
    exact ⟨counter, member, rfl⟩

def accept (receipts : Receipts) (session : Session) (counter : UInt64) : Receipts :=
  ⟨session, receipts.accepted ++ [counter]⟩

theorem seen_accept (receipts : Receipts) (session : Session) (counter : UInt64) :
    (receipts.accept session counter).seen = insert counter.toNat receipts.seen := by
  ext position
  simp only [seen, accept, mem_append, mem_singleton, Set.mem_ofPred_eq,
    Set.mem_insert_iff, or_and_right, exists_or, exists_eq_left]
  rw [or_comm, eq_comm]

theorem highest_accept (receipts : Receipts) (session : Session) (counter : UInt64) :
    (receipts.accept session counter).highest = max receipts.highest counter.toNat := by
  simp [highest, accept]

structure Exact (receipts : Receipts) : Prop where
  nodup : receipts.accepted.Nodup
  highest_eq : receipts.highest = receipts.session.recvCounter.toNat
  below : ∀ position ∈ receipts.seen, position ≤ receipts.session.recvCounter.toNat
  records : SlidingBitmap.Records receipts.session.recvBitmap
    receipts.session.recvCounter.toNat receipts.seen

theorem exact_start : start.Exact where
  nodup := nodup_nil
  highest_eq := rfl
  below := by
    rintro position ⟨counter, member, -⟩
    exact absurd member not_mem_nil
  records := by
    have none : start.seen = ∅ := by simp [seen, start]
    rw [none]
    exact records_zero _

/-- A check accepts exactly the counters that were not accepted and lie in the window. -/
theorem Exact.acceptable_iff (exact : receipts.Exact) (counter : UInt64) :
    (receipts.session.checkAndUpdateReplay counter).1 = true ↔
      counter ∉ receipts.accepted ∧ (receipts.highest : ℤ) - 128 < counter.toNat := by
  rw [Session.checkAndUpdateReplay_fst_iff, Session.acceptable_iff, exact.highest_eq,
    ← mem_seen_iff, and_comm]
  have inWindow : receipts.session.recvCounter.toNat < counter.toNat + 128 ↔
      (receipts.session.recvCounter.toNat : ℤ) - 128 < counter.toNat := by omega
  rw [← inWindow]
  refine and_congr_left fun window => not_congr ?_
  constructor
  · rintro ⟨place, near, below, set⟩
    exact (exact.records.getLsbD_iff near below).mp set
  · intro member
    have bounded := exact.below _ member
    have below : counter.toNat + (receipts.session.recvCounter.toNat - counter.toNat) =
        receipts.session.recvCounter.toNat := by omega
    exact ⟨_, by omega, below, (exact.records.getLsbD_iff (by omega) below).mpr member⟩

theorem Exact.accept (exact : receipts.Exact) {session : Session}
    (fresh : counter ∉ receipts.accepted)
    (top : session.recvCounter.toNat = max receipts.session.recvCounter.toNat counter.toNat)
    (records : SlidingBitmap.Records session.recvBitmap session.recvCounter.toNat
      (insert counter.toNat receipts.seen)) : (receipts.accept session counter).Exact where
  nodup := by
    rw [Receipts.accept, nodup_append]
    refine ⟨exact.nodup, nodup_singleton _, ?_⟩
    rintro earlier member last isLast rfl
    exact fresh (mem_singleton.mp isLast ▸ member)
  highest_eq := by
    rw [highest_accept, exact.highest_eq]
    exact top.symm
  below := by
    rw [seen_accept]
    intro position member
    change position ≤ session.recvCounter.toNat
    rw [top]
    rcases Set.mem_insert_iff.mp member with rfl | earlier
    · exact le_max_right _ _
    · exact le_trans (exact.below position earlier) (le_max_left _ _)
  records := by
    rw [seen_accept]
    exact records

theorem exact_receive (receipts : Receipts) (counter : UInt64) (exact : receipts.Exact) :
    (receipts.receive counter).Exact := by
  have acceptable := exact.acceptable_iff counter
  rcases receipts.session.checkAndUpdateReplay_cases counter with
    ⟨distance, positive, above, checked⟩ | ⟨old, checked⟩ | ⟨place, near, within, checked⟩
  · rw [checked] at acceptable
    simp only [receive, checked, if_true]
    refine exact.accept (acceptable.mp rfl).1 (by simp only; omega) ?_
    simp only [← above]
    split
    next far => exact records_reset exact.below far
    next => exact exact.records.advance exact.below positive
  · simp only [receive, checked, Bool.false_eq_true, if_false]
    exact exact
  · cases bit : receipts.session.recvBitmap.getLsbD place with
    | true =>
      simp only [receive, checked, bit, if_true, Bool.false_eq_true, if_false]
      exact exact
    | false =>
      simp only [bit, Bool.false_eq_true, if_false] at checked
      rw [checked] at acceptable
      simp only [receive, checked, if_true]
      refine exact.accept (acceptable.mp rfl).1 (by simp only; omega) ?_
      exact exact.records.mark within

def after (counters : List UInt64) : Receipts := Run.after receive start counters

theorem exact_after (counters : List UInt64) : (after counters).Exact :=
  Run.invariant_of_step Exact exact_receive exact_start counters

end Receipts

/-- After any counters, those accepted are distinct, and a counter is accepted next if and only
if it was not accepted before and is greater than the highest accepted one less 128. -/
theorem replay_window_exact (counters : List UInt64) :
    (Receipts.after counters).accepted.Nodup ∧ ∀ counter,
      ((Receipts.after counters).session.checkAndUpdateReplay counter).1 = true ↔
        counter ∉ (Receipts.after counters).accepted ∧
          ((Receipts.after counters).highest : ℤ) - 128 < counter.toNat :=
  ⟨(Receipts.exact_after counters).nodup, (Receipts.exact_after counters).acceptable_iff⟩

end Warp.Noise
