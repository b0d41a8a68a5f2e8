import Mathlib.Data.List.Basic
import Mathlib.Data.List.Pairwise
import Mathlib.Order.Lattice

/-! # Logs that are purged from the front

A log holds entries in the order of their identifiers and remembers up to which entry it was purged.
Under operations that keep to the order, the purge position stays before or at an entry
(`PurgedLog.Sound`), and the last entry is not before it exactly if there is an entry at all
(`PurgedLog.Sound.advanced_iff`).
-/

/-- The identifiers of the entries, and up to which one the log was purged. -/
structure PurgedLog (Id : Type*) where
  ids : List Id
  purged : Option Id

namespace PurgedLog

open List Option

variable {Id : Type*} [LinearOrder Id] (index : Id → ℕ)

/-- The entry that a new one comes after. -/
def tip (log : PurgedLog Id) : Option Id := log.ids.getLast?.or log.purged

/-- New entries are numbered from the one they come after. -/
def Follows : Option Id → List Id → Prop
  | _, [] => True
  | tip, id :: rest =>
    (∀ before ∈ tip, before < id ∧ index id = index before + 1) ∧ Follows (some id) rest

instance decidableFollows : ∀ tip ids, Decidable (Follows index tip ids)
  | _, [] => inferInstanceAs (Decidable True)
  | tip, id :: rest =>
    have := decidableFollows (some id) rest
    inferInstanceAs (Decidable ((∀ before ∈ tip, _) ∧ Follows index (some id) rest))

def append (log : PurgedLog Id) (new : List Id) : PurgedLog Id :=
  { log with ids := log.ids ++ new }

/-- Without the entries from a number on. -/
def truncate (log : PurgedLog Id) (start : ℕ) : PurgedLog Id :=
  { log with ids := log.ids.filter (index · < start) }

/-- Without the entries up to one. -/
def purge (log : PurgedLog Id) (id : Id) : PurgedLog Id :=
  ⟨log.ids.filter (index id < index ·), some id⟩

/-- Entries with the purge position moved, and none taken away. -/
def mark (log : PurgedLog Id) (id : Id) : PurgedLog Id := { log with purged := some id }

/-- An entry of the log, or one before all of them. -/
def Reached (log : PurgedLog Id) (id : Id) : Prop :=
  id ∈ log.ids ∨ ∀ entry ∈ log.ids, id < entry ∧ index id < index entry
  deriving Decidable

/-- The last entry is not before the purge position. -/
def Advanced (log : PurgedLog Id) : Prop :=
  ∀ purged ∈ log.purged, ∃ last ∈ log.ids.getLast?, purged ≤ last
  deriving Decidable

structure Sound (log : PurgedLog Id) : Prop where
  ordered : log.ids.Pairwise fun first second => first < second ∧ index first < index second
  placed : ∀ purged ∈ log.purged, (∀ id ∈ log.ids, purged < id) ∨ purged ∈ log.ids

variable {index} {log : PurgedLog Id} {id : Id}

theorem sound_empty : Sound index (⟨[], none⟩ : PurgedLog Id) := ⟨.nil, nofun⟩

section
variable (sound : log.Sound index)
include sound

theorem Sound.le_last {last : Id} (isLast : log.ids.getLast? = some last) (member : id ∈ log.ids) :
    id ≤ last ∧ index id ≤ index last := by
  obtain ⟨front, isFront⟩ := getLast?_eq_some_iff.mp isLast
  have ordered := sound.ordered
  rw [isFront] at ordered member
  rcases mem_append.mp member with earlier | here
  · obtain ⟨before, below⟩ :=
      (pairwise_append.mp ordered).2.2 id earlier last mem_cons_self
    exact ⟨before.le, below.le⟩
  · rw [mem_singleton.mp here]
    exact ⟨le_rfl, le_rfl⟩

theorem Sound.lt_or_gt {first second : Id} (left : first ∈ log.ids) (right : second ∈ log.ids)
    (different : first ≠ second) :
    first < second ∧ index first < index second ∨ second < first ∧ index second < index first := by
  have symmetric : Std.Symm fun first second : Id =>
      first < second ∧ index first < index second ∨
        second < first ∧ index second < index first := ⟨fun _ _ => Or.symm⟩
  have related : log.ids.Pairwise fun first second => first < second ∧ index first < index second ∨
      second < first ∧ index second < index first := sound.ordered.imp Or.inl
  exact related.forall left right different

theorem Sound.purged_le_tip {purged tip : Id} (isPurged : log.purged = some purged)
    (isTip : log.tip = some tip) : purged ≤ tip := by
  unfold PurgedLog.tip at isTip
  cases isLast : log.ids.getLast? with
  | none =>
    rw [isLast, none_or, isPurged] at isTip
    exact (Option.some.inj isTip).le
  | some last =>
    rw [isLast, some_or] at isTip
    obtain rfl := Option.some.inj isTip
    rcases sound.placed purged isPurged with before | member
    · exact (before last (mem_of_getLast? isLast)).le
    · exact (sound.le_last isLast member).1

theorem Sound.lt_of_follows {new : Id}
    (follows : ∀ before ∈ log.tip, before < new ∧ index new = index before + 1)
    (member : id ∈ log.ids) : id < new ∧ index id < index new := by
  obtain ⟨last, isLast⟩ := getLast?_isSome.mpr (ne_nil_of_mem member) |> isSome_iff_exists.mp
  have isTip : last ∈ log.tip := by
    unfold PurgedLog.tip
    rw [isLast]
    rfl
  obtain ⟨below, number⟩ := follows last isTip
  obtain ⟨upTo, least⟩ := sound.le_last isLast member
  exact ⟨upTo.trans_lt below, by omega⟩

theorem Sound.append_one {new : Id}
    (follows : ∀ before ∈ log.tip, before < new ∧ index new = index before + 1) :
    (log.append [new]).Sound index where
  ordered := by
    refine pairwise_append.mpr ⟨sound.ordered, pairwise_singleton _ _, ?_⟩
    intro id member other single
    rw [mem_singleton.mp single]
    exact sound.lt_of_follows follows member
  placed := fun purged isPurged => by
    rcases sound.placed purged isPurged with before | member
    · refine .inl fun id member => ?_
      rcases mem_append.mp member with old | single
      · exact before id old
      · rw [mem_singleton.mp single]
        obtain ⟨tip, isTip⟩ : ∃ tip, log.tip = some tip := by
          unfold PurgedLog.tip
          rw [show log.purged = some purged from isPurged]
          cases log.ids.getLast? with
          | none => exact ⟨purged, rfl⟩
          | some last => exact ⟨last, rfl⟩
        exact (sound.purged_le_tip isPurged isTip).trans_lt (follows tip isTip).1
    · exact .inr (mem_append_left _ member)

end

omit [LinearOrder Id] in
theorem tip_append_one (new : Id) : (log.append [new]).tip = some new := by
  unfold tip append
  rw [getLast?_concat, some_or]

omit [LinearOrder Id] in
theorem append_append (first second : List Id) :
    (log.append first).append second = log.append (first ++ second) := by
  unfold append
  rw [append_assoc]

variable (sound : log.Sound index)
include sound

theorem Sound.append {new : List Id} (follows : Follows index log.tip new) :
    (log.append new).Sound index := by
  induction new generalizing log with
  | nil =>
    unfold PurgedLog.append
    rwa [append_nil]
  | cons id rest ih =>
    have more := ih (sound.append_one follows.1) (by rw [tip_append_one]; exact follows.2)
    rwa [append_append, singleton_append] at more

theorem Sound.truncate {start : ℕ} (above : ∀ purged ∈ log.purged, index purged < start) :
    (log.truncate index start).Sound index where
  ordered := sound.ordered.filter _
  placed := fun purged isPurged => by
    rcases sound.placed purged isPurged with before | member
    · exact .inl fun id kept => before id (mem_of_mem_filter kept)
    · exact .inr (mem_filter.mpr ⟨member, decide_eq_true (above purged isPurged)⟩)

theorem Sound.purge (reached : log.Reached index id) :
    (log.purge index id).Sound index where
  ordered := sound.ordered.filter _
  placed := fun purged isPurged => by
    obtain rfl : id = purged := Option.some.inj isPurged
    refine .inl fun entry kept => ?_
    obtain ⟨member, above⟩ := mem_filter.mp kept
    rcases reached with inside | before
    · have above : index id < index entry := of_decide_eq_true above
      have different : id ≠ entry := by
        rintro rfl
        exact lt_irrefl _ above
      rcases sound.lt_or_gt inside member different with ⟨below, -⟩ | ⟨-, behind⟩
      · exact below
      · omega
    · exact (before entry member).1

theorem Sound.mark (reached : log.Reached index id) : (log.mark id).Sound index where
  ordered := sound.ordered
  placed := fun purged isPurged => by
    obtain rfl : id = purged := Option.some.inj isPurged
    rcases reached with inside | before
    · exact .inr inside
    · exact .inl fun entry member => (before entry member).1

/-- **The last entry is not before the purge position** exactly if there is one, or nothing was
purged. -/
theorem Sound.advanced_iff : log.Advanced ↔ log.ids ≠ [] ∨ log.purged = none := by
  constructor
  · intro advanced
    cases isPurged : log.purged with
    | none => exact .inr rfl
    | some purged =>
      obtain ⟨last, isLast, -⟩ := advanced purged isPurged
      exact .inl (ne_nil_of_mem (mem_of_getLast? isLast))
  · rintro (some | none) purged isPurged
    · obtain ⟨last, isLast⟩ := isSome_iff_exists.mp (getLast?_isSome.mpr some)
      have isTip : log.tip = .some last := by
        unfold tip
        rw [isLast, some_or]
      exact ⟨last, isLast, sound.purged_le_tip isPurged isTip⟩
    · rw [none] at isPurged
      cases isPurged

end PurgedLog
