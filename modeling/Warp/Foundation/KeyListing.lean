import Mathlib.Data.Finset.Sort
import Mathlib.Data.List.Lex

/-! # Listing keys under a beginning, grouped by a delimiter

Keys with the delimiter behind the given beginning are not listed but grouped
(`KeyListing.IsListing`). A walk through directories that groups whole directories lists what is
right exactly if no key that it takes for an object should be grouped or comes early enough to be
listed, and directories and keys have the same groups (`KeyListing.isListing_of_walk_iff`).
-/

namespace KeyListing

open List Option

section Search
variable {Letter : Type} [DecidableEq Letter] (pattern : List Letter)

/-- Where a pattern first occurs in a text. -/
def findText : List Letter → Option ℕ
  | [] => if pattern = [] then some 0 else none
  | letter :: rest =>
    if pattern <+: letter :: rest then some 0 else (findText rest).map (· + 1)

variable {pattern} {text : List Letter} {position : ℕ}

theorem add_length_le_of_findText (found : findText pattern text = some position) :
    position + pattern.length ≤ text.length := by
  induction text generalizing position with
  | nil =>
    rw [findText] at found
    split_ifs at found with empty
    cases found
    simp [empty]
  | cons letter rest ih =>
    rw [findText] at found
    split_ifs at found with here
    · cases found
      simpa using here.length_le
    · obtain ⟨before, later, rfl⟩ := map_eq_some_iff.mp found
      have bound := ih later
      rw [length_cons]
      omega

theorem findText_append (found : findText pattern text = some position) (more : List Letter) :
    findText pattern (text ++ more) = some position := by
  induction text generalizing position with
  | nil =>
    rw [findText] at found
    split_ifs at found with empty
    cases found
    cases more with
    | nil => exact if_pos empty
    | cons letter rest => exact if_pos (empty ▸ List.nil_prefix)
  | cons letter rest ih =>
    rw [findText] at found
    rw [cons_append, findText]
    split_ifs at found with here
    · rw [← cons_append, if_pos (here.trans (prefix_append _ _)), found]
    · obtain ⟨before, later, rfl⟩ := map_eq_some_iff.mp found
      have short : pattern.length ≤ (letter :: rest).length := by
        have bound := add_length_le_of_findText later
        rw [length_cons]
        omega
      rw [if_neg, ih later]
      · rfl
      · intro longer
        rw [← cons_append] at longer
        exact here (prefix_of_prefix_length_le longer (prefix_append _ _) short)

end Search

/-- What is asked for. -/
structure Query (Letter : Type) where
  beginning : List Letter
  startAfter : Option (List Letter)
  maxKeys : ℕ
  delimiter : Option (List Letter)

variable {Letter : Type} [LinearOrder Letter] (query : Query Letter)

namespace Query

def Matches (key : List Letter) : Prop :=
  query.beginning <+: key ∧ ∀ bound ∈ query.startAfter, bound < key

/-- The text of a key up to the first delimiter behind the beginning, if there is one. -/
def group? (key : List Letter) : Option (List Letter) :=
  query.delimiter.bind fun delimiter =>
    (findText delimiter (key.drop query.beginning.length)).map fun position =>
      query.beginning ++ (key.drop query.beginning.length).take position ++ delimiter

instance : DecidablePred query.Matches := fun _ => inferInstanceAs (Decidable (_ ∧ _))

variable {query}

theorem group?_eq_none_of_delimiter (plain : query.delimiter = none) (key : List Letter) :
    query.group? key = none := by
  unfold group?
  rw [plain, bind_none]

theorem group?_append {key group : List Letter} (matching : query.Matches key)
    (grouped : query.group? key = some group) (more : List Letter) :
    query.group? (key ++ more) = some group := by
  obtain ⟨delimiter, given, found⟩ := bind_eq_some_iff.mp grouped
  obtain ⟨position, occurs, rfl⟩ := map_eq_some_iff.mp found
  have bound := add_length_le_of_findText occurs
  unfold group?
  rw [given, bind_some, drop_append_of_le_length matching.1.length_le,
    findText_append occurs, map_some, take_append_of_le_length (by omega)]

end Query

section First
variable {Item : Type} (items : Finset Item) (keep : Item → Prop)

/-- Leaving out elements of a sorted list does not change its beginning exactly if enough others
come before each of them. -/
theorem take_eq_take_filter_iff [LinearOrder Item] (keep : Item → Bool) {items : List Item}
    (sorted : items.Pairwise (· < ·)) (count : ℕ) :
    items.take count = (items.filter keep).take count ↔
      ∀ item ∈ items, keep item = false →
        count ≤ ((items.filter keep).filter (· < item)).length := by
  induction items generalizing count with
  | nil => simp
  | cons first rest ih =>
    obtain ⟨least, later⟩ := pairwise_cons.mp sorted
    cases count with
    | zero => simp
    | succ count =>
      cases kept : keep first with
      | true =>
        rw [filter_cons_of_pos kept, take_succ_cons, take_succ_cons,
          cons_inj_right, ih later, forall_mem_cons]
        have before (item : Item) (member : item ∈ rest) :
            ((first :: rest.filter keep).filter (· < item)).length =
              ((rest.filter keep).filter (· < item)).length + 1 := by
          rw [filter_cons, if_pos (decide_eq_true (least item member)), length_cons]
        constructor
        · refine fun enough => ⟨fun dropped => absurd (kept.symm.trans dropped) nofun,
            fun item member dropped => ?_⟩
          rw [before item member]
          exact Nat.succ_le_succ (enough item member dropped)
        · intro enough item member dropped
          have more := enough.2 item member dropped
          rw [before item member] at more
          exact Nat.le_of_succ_le_succ more
      | false =>
        rw [filter_cons_of_neg (by simp [kept])]
        refine iff_of_false (fun same => ?_) fun enough => ?_
        · have inside : first ∈ (rest.filter keep).take (count + 1) := by
            rw [← same, take_succ_cons]
            exact mem_cons_self
          exact lt_irrefl first (least first (mem_of_mem_filter (mem_of_mem_take inside)))
        · have some := enough first mem_cons_self kept
          have none : (rest.filter keep).filter (· < first) = [] := by
            refine filter_eq_nil_iff.mpr fun item member earlier => ?_
            exact lt_asymm (least item (mem_of_mem_filter member)) (of_decide_eq_true earlier)
          rw [none] at some
          exact Nat.not_succ_le_zero _ some

theorem sort_filter [LinearOrder Item] [DecidablePred keep] :
    (items.filter keep).sort (· ≤ ·) = (items.sort (· ≤ ·)).filter fun item => keep item := by
  refine (Finset.sortedLT_sort _).eq_of_mem_iff
    ((Finset.sortedLT_sort items).pairwise.filter _).sortedLT fun item => ?_
  simp

/-- The first elements of a set are those of a larger one exactly if enough of them come before
each additional element. -/
theorem take_sort_eq_iff [LinearOrder Item] [DecidablePred keep] (count : ℕ) :
    (items.sort (· ≤ ·)).take count = ((items.filter keep).sort (· ≤ ·)).take count ↔
      ∀ item ∈ items, ¬ keep item → count ≤ ((items.filter keep).filter (· < item)).card := by
  rw [sort_filter, take_eq_take_filter_iff _ (Finset.sortedLT_sort items).pairwise]
  simp [← sort_filter]

end First

/-- The objects and groups that a query is to list. -/
structure IsListing (keys : Finset (List Letter)) (listed common : List (List Letter)) :
    Prop where
  objects : listed = ((keys.filter fun key => query.Matches key ∧ query.group? key = none).sort
    (· ≤ ·)).take query.maxKeys
  groups : ∀ group, group ∈ common ↔ ∃ key ∈ keys, query.Matches key ∧ query.group? key = some group
  distinct : common.Nodup

variable (keys : Finset (List Letter)) (IsDirectory : List Letter → Prop)
  (Above : List Letter → List Letter → Prop)

/-- A directory that is grouped as a whole. -/
def Grouped (directory : List Letter) : Prop :=
  IsDirectory directory ∧ query.Matches directory ∧ query.group? directory ≠ none

/-- The keys and directories for which grouping whole directories does no harm. -/
structure Harmless : Prop where
  /-- A key that should be grouped, and is in no grouped directory, comes too late. -/
  late : ∀ key ∈ keys, query.Matches key → query.group? key ≠ none →
    (∀ directory, Grouped query IsDirectory directory → ¬ Above directory key) →
    query.maxKeys ≤
      (keys.filter fun other => query.Matches other ∧ query.group? other = none ∧ other < key).card
  /-- The group of a directory is the group of a key. -/
  inhabited : ∀ directory group, IsDirectory directory → query.Matches directory →
    query.group? directory = some group →
    ∃ key ∈ keys, query.Matches key ∧ query.group? key = some group
  /-- The group of a key is the group of a directory. -/
  covered : ∀ key ∈ keys, ∀ group, query.Matches key → query.group? key = some group →
    ∃ directory, IsDirectory directory ∧ query.Matches directory ∧
      query.group? directory = some group

variable {query keys IsDirectory Above}

theorem not_above_of_group?_eq_none
    (below : ∀ directory key, Above directory key → directory <+: key) {key : List Letter}
    (free : query.group? key = none) {directory : List Letter}
    (grouped : Grouped query IsDirectory directory) : ¬ Above directory key := by
  intro above
  obtain ⟨more, rfl⟩ := below directory key above
  obtain ⟨group, found⟩ := ne_none_iff_exists'.mp grouped.2.2
  rw [Query.group?_append grouped.2.1 found more] at free
  cases free

theorem harmless_of_delimiter_eq_none (plain : query.delimiter = none) :
    Harmless query keys IsDirectory Above where
  late := fun key _ _ grouped => absurd (Query.group?_eq_none_of_delimiter plain key) grouped
  inhabited := fun directory _ _ _ grouped => by
    rw [Query.group?_eq_none_of_delimiter plain directory] at grouped
    cases grouped
  covered := fun key _ _ _ grouped => by
    rw [Query.group?_eq_none_of_delimiter plain key] at grouped
    cases grouped

variable (below : ∀ directory key, Above directory key → directory <+: key)
  {visible : Finset (List Letter)}
  (mem_visible : ∀ key, key ∈ visible ↔ key ∈ keys ∧ query.Matches key ∧
    ∀ directory, Grouped query IsDirectory directory → ¬ Above directory key)
include below mem_visible

theorem filter_group?_eq_none :
    keys.filter (fun key => query.Matches key ∧ query.group? key = none) =
      visible.filter fun key => query.group? key = none := by
  ext key
  simp only [Finset.mem_filter, mem_visible]
  constructor
  · rintro ⟨member, matching, ungrouped⟩
    exact ⟨⟨member, matching, fun _ => not_above_of_group?_eq_none below ungrouped⟩, ungrouped⟩
  · rintro ⟨⟨member, matching, -⟩, ungrouped⟩
    exact ⟨member, matching, ungrouped⟩

/-- The first keys that a walk passes by are right exactly if those with a group come too late. -/
theorem take_visible_eq_iff :
    (visible.sort (· ≤ ·)).take query.maxKeys = ((keys.filter fun key =>
      query.Matches key ∧ query.group? key = none).sort (· ≤ ·)).take query.maxKeys ↔
      ∀ key ∈ visible, query.group? key ≠ none → query.maxKeys ≤ (keys.filter fun other =>
        query.Matches other ∧ query.group? other = none ∧ other < key).card := by
  have free := filter_group?_eq_none below mem_visible
  have earlier (key : List Letter) :
      (visible.filter fun other => query.group? other = none).filter (· < key) =
        keys.filter fun other =>
          query.Matches other ∧ query.group? other = none ∧ other < key := by
    rw [← free, Finset.filter_filter]
    simp only [and_assoc]
  rw [free, take_sort_eq_iff]
  refine forall₂_congr fun key _ => imp_congr_right fun _ => ?_
  rw [← earlier key]
  congr!

/-- **A walk that groups whole directories** lists what it should exactly if that does no harm. -/
theorem isListing_of_walk_iff {common : List (List Letter)} (distinct : common.Nodup)
    (mem_common : ∀ group, group ∈ common ↔ ∃ directory, IsDirectory directory ∧
      query.Matches directory ∧ query.group? directory = some group) :
    IsListing query keys ((visible.sort (· ≤ ·)).take query.maxKeys) common ↔
      Harmless query keys IsDirectory Above := by
  have objects := take_visible_eq_iff below mem_visible
  constructor
  · rintro ⟨listed, groups, -⟩
    refine ⟨fun key member matching grouped hidden => ?_,
      fun directory group isDir matching found => ?_,
      fun key member group matching found => ?_⟩
    · exact objects.mp listed key ((mem_visible key).mpr ⟨member, matching, hidden⟩) grouped
    · exact (groups group).mp ((mem_common group).mpr ⟨directory, isDir, matching, found⟩)
    · exact (mem_common group).mp ((groups group).mpr ⟨key, member, matching, found⟩)
  · rintro ⟨late, inhabited, covered⟩
    refine ⟨objects.mpr fun key visibleKey grouped => ?_, fun group => ?_, distinct⟩
    · obtain ⟨member, matching, hidden⟩ := (mem_visible key).mp visibleKey
      exact late key member matching grouped hidden
    · rw [mem_common]
      constructor
      · rintro ⟨directory, isDir, matching, found⟩
        exact inhabited directory group isDir matching found
      · rintro ⟨key, member, matching, found⟩
        exact covered key member group matching found

end KeyListing
