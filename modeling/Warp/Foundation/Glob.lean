import Mathlib.Data.List.Count

/-! # Wildcard patterns

A pattern is a list of letters that stand for themselves and of wildcards for one letter or any
number of them. The letters a wildcard may stand for are a parameter: a matcher whose wildcards miss
some letters recognises exactly the texts of the unrestricted pattern in which those letters are
spelled out (`Glob.matches_iff_countP_le`).
-/

namespace Glob

open List

/-- A place of a pattern. -/
inductive Token (Letter : Type*) where
  | literal (letter : Letter)
  | any
  | star
  deriving DecidableEq

variable {Letter : Type*} (wild : Letter → Bool) (letters text : List Letter)

/-- The text is one the pattern describes, its wildcards standing for `wild` letters. -/
def Matches (wild : Letter → Bool) : List (Token Letter) → List Letter → Prop
  | [], text => text = []
  | .literal letter :: rest, text => ∃ tail, text = letter :: tail ∧ Matches wild rest tail
  | .any :: rest, text =>
    ∃ letter tail, text = letter :: tail ∧ wild letter = true ∧ Matches wild rest tail
  | .star :: rest, text =>
    ∃ front tail, text = front ++ tail ∧ (∀ letter ∈ front, wild letter = true) ∧
      Matches wild rest tail

/-- The letters a pattern spells out. -/
def literals : List (Token Letter) → List Letter
  | [] => []
  | .literal letter :: rest => letter :: literals rest
  | .any :: rest => literals rest
  | .star :: rest => literals rest

section Recognition

/-- Some tail of the text is accepted, with only `wild` letters before it. -/
def skips (wild : Letter → Bool) (accept : List Letter → Bool) : List Letter → Bool
  | [] => accept []
  | letter :: text => accept (letter :: text) || (wild letter && skips wild accept text)

theorem skips_iff (accept : List Letter → Bool) (text : List Letter) :
    skips wild accept text = true ↔
      ∃ front tail, text = front ++ tail ∧ (∀ letter ∈ front, wild letter = true) ∧
        accept tail = true := by
  induction text with
  | nil =>
    constructor
    · intro accepted
      exact ⟨[], [], rfl, nofun, accepted⟩
    · rintro ⟨front, tail, split, -, accepted⟩
      obtain ⟨rfl, rfl⟩ := append_eq_nil_iff.mp split.symm
      exact accepted
  | cons letter text ih =>
    simp only [skips, Bool.or_eq_true, Bool.and_eq_true, ih]
    constructor
    · rintro (accepted | ⟨skipped, front, tail, rfl, wildFront, accepted⟩)
      · exact ⟨[], letter :: text, rfl, nofun, accepted⟩
      · exact ⟨letter :: front, tail, rfl, forall_mem_cons.mpr ⟨skipped, wildFront⟩, accepted⟩
    · rintro ⟨front, tail, split, wildFront, accepted⟩
      cases front with
      | nil => exact .inl (split ▸ accepted)
      | cons head front =>
        obtain ⟨rfl, rfl⟩ := List.cons.inj split
        obtain ⟨skipped, wildFront⟩ := forall_mem_cons.mp wildFront
        exact .inr ⟨skipped, front, tail, rfl, wildFront, accepted⟩

variable [DecidableEq Letter]

/-- A matcher for patterns. -/
def accepts (wild : Letter → Bool) : List (Token Letter) → List Letter → Bool
  | [], text => text.isEmpty
  | .literal _ :: _, [] => false
  | .literal letter :: rest, head :: tail => head == letter && accepts wild rest tail
  | .any :: _, [] => false
  | .any :: rest, head :: tail => wild head && accepts wild rest tail
  | .star :: rest, text => skips wild (accepts wild rest) text

theorem accepts_iff (tokens : List (Token Letter)) (text : List Letter) :
    accepts wild tokens text = true ↔ Matches wild tokens text := by
  induction tokens generalizing text with
  | nil => exact List.isEmpty_iff
  | cons token rest ih =>
    cases token with
    | literal letter => cases text <;> simp [accepts, Matches, ih, and_assoc]
    | any => cases text <;> simp [accepts, Matches, ih, and_assoc]
    | star => simp only [accepts, Matches, skips_iff, ih]

instance (wild : Letter → Bool) (tokens : List (Token Letter)) (text : List Letter) :
    Decidable (Matches wild tokens text) :=
  decidable_of_iff _ (accepts_iff wild tokens text)

end Recognition

theorem matches_map_literal_iff :
    Matches wild (letters.map .literal) text ↔ text = letters := by
  induction letters generalizing text with
  | nil => rfl
  | cons letter letters ih => simp [Matches, ih]

theorem matches_star (text : List Letter) : Matches (fun _ => true) [.star] text :=
  ⟨text, [], (append_nil text).symm, fun _ _ => rfl, rfl⟩

theorem matches_star_tail_iff :
    Matches (fun _ => true) (letters.map .literal ++ [.star]) text ↔ letters <+: text := by
  induction letters generalizing text with
  | nil => exact iff_of_true (matches_star text) (List.nil_prefix)
  | cons letter letters ih =>
    cases text <;> simp [Matches, ih, cons_prefix_cons, eq_comm]

variable {wild : Letter → Bool} {tokens : List (Token Letter)} {text : List Letter}

theorem Matches.mono {wider : Letter → Bool}
    (widens : ∀ letter, wild letter = true → wider letter = true)
    (describes : Matches wild tokens text) : Matches wider tokens text := by
  induction tokens generalizing text with
  | nil => exact describes
  | cons token rest ih =>
    cases token with
    | literal letter =>
      obtain ⟨tail, rfl, describes⟩ := describes
      exact ⟨tail, rfl, ih describes⟩
    | any =>
      obtain ⟨letter, tail, rfl, wildLetter, describes⟩ := describes
      exact ⟨letter, tail, rfl, widens letter wildLetter, ih describes⟩
    | star =>
      obtain ⟨front, tail, rfl, wildFront, describes⟩ := describes
      exact ⟨front, tail, rfl, fun letter inside => widens letter (wildFront letter inside),
        ih describes⟩

theorem Matches.countP_literals_le (counted : Letter → Bool)
    (describes : Matches wild tokens text) :
    (literals tokens).countP counted ≤ text.countP counted := by
  induction tokens generalizing text with
  | nil => exact Nat.zero_le _
  | cons token rest ih =>
    cases token with
    | literal letter =>
      obtain ⟨tail, rfl, describes⟩ := describes
      simp only [literals, countP_cons]
      exact Nat.add_le_add_right (ih describes) _
    | any =>
      obtain ⟨letter, tail, rfl, -, describes⟩ := describes
      exact Nat.le_trans (ih describes) (Sublist.countP_le (sublist_cons_self letter tail))
    | star =>
      obtain ⟨front, tail, rfl, -, describes⟩ := describes
      exact Nat.le_trans (ih describes) (Sublist.countP_le (sublist_append_right front tail))

/-- The letters that no wildcard stands for are spelled out. -/
theorem Matches.countP_le_literals (describes : Matches wild tokens text) :
    text.countP (fun letter => !wild letter) ≤
      (literals tokens).countP fun letter => !wild letter := by
  induction tokens generalizing text with
  | nil =>
    obtain rfl : text = [] := describes
    exact Nat.le_refl _
  | cons token rest ih =>
    cases token with
    | literal letter =>
      obtain ⟨tail, rfl, describes⟩ := describes
      simp only [literals, countP_cons]
      exact Nat.add_le_add_right (ih describes) _
    | any =>
      obtain ⟨letter, tail, rfl, wildLetter, describes⟩ := describes
      simpa [literals, countP_cons, wildLetter] using ih describes
    | star =>
      obtain ⟨front, tail, rfl, wildFront, describes⟩ := describes
      have absent : front.countP (fun letter => !wild letter) = 0 := by
        simpa [countP_eq_zero] using wildFront
      simpa [literals, countP_append, absent] using ih describes

theorem Matches.restrict (describes : Matches (fun _ => true) tokens text)
    (spelled : text.countP (fun letter => !wild letter) ≤
      (literals tokens).countP fun letter => !wild letter) : Matches wild tokens text := by
  induction tokens generalizing text with
  | nil => exact describes
  | cons token rest ih =>
    cases token with
    | literal letter =>
      obtain ⟨tail, rfl, describes⟩ := describes
      simp only [literals, countP_cons] at spelled
      exact ⟨tail, rfl, ih describes (Nat.le_of_add_le_add_right spelled)⟩
    | any =>
      obtain ⟨letter, tail, rfl, -, describes⟩ := describes
      -- The tail already holds every spelled letter, so this one has to be wild.
      have held := describes.countP_literals_le fun letter => !wild letter
      simp only [literals, countP_cons] at spelled
      have wildLetter : wild letter = true := by
        cases wildness : wild letter with
        | true => rfl
        | false =>
          simp only [wildness, Bool.not_false, if_true] at spelled
          omega
      exact ⟨letter, tail, rfl, wildLetter, ih describes (by omega)⟩
    | star =>
      obtain ⟨front, tail, rfl, -, describes⟩ := describes
      have held := describes.countP_literals_le fun letter => !wild letter
      simp only [literals, countP_append] at spelled
      have absent : front.countP (fun letter => !wild letter) = 0 := by omega
      refine ⟨front, tail, rfl, ?_, ih describes (by omega)⟩
      simpa [countP_eq_zero] using absent

theorem matches_iff_countP_le :
    Matches wild tokens text ↔ Matches (fun _ => true) tokens text ∧
      text.countP (fun letter => !wild letter) ≤
        (literals tokens).countP fun letter => !wild letter := by
  constructor
  · intro describes
    exact ⟨describes.mono fun _ _ => rfl, describes.countP_le_literals⟩
  · rintro ⟨describes, spelled⟩
    exact describes.restrict spelled

end Glob
