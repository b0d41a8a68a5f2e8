import Mathlib.Data.List.Chain
import Mathlib.Data.List.GetD
import Warp.Foundation.Bytes

/-! # Boundaries of a partition

An interval is partitioned by an increasing list of boundaries (`Boundaries.Partitions`). Dropping
inner ones gives a coarser partition (`Boundaries.Coarsens`); putting more between neighbours gives
a finer one, with any relation that holds along what was put in (`Boundaries.isChain_subdivide`).
The bytes of the parts are the bytes of the whole (`Boundaries.Partitions.flatten_slices`).
-/

namespace Boundaries

open List

/-- The neighbours in a list. -/
def ranges {α : Type*} (boundaries : List α) : List (α × α) := boundaries.zip boundaries.tail

/-- An increasing list from zero to a length. -/
structure Partitions (length : ℕ) (boundaries : List ℕ) : Prop where
  first : boundaries.head? = some 0
  last : boundaries.getLast? = some length
  increasing : boundaries.IsChain (· < ·)

/-- Some inner boundaries are dropped. -/
structure Coarsens {α : Type*} (fine coarse : List α) : Prop where
  sublist : coarse.Sublist fine
  first : coarse.head? = fine.head?
  last : coarse.getLast? = fine.getLast?

/-- Put boundaries after every boundary but the last. -/
def subdivide {α : Type*} (between : α → α → List α) (boundaries : List α) : List α :=
  (ranges boundaries).flatMap (fun range => range.1 :: between range.1 range.2) ++
    boundaries.getLast?.toList

section
variable {α : Type*} {relation : α → α → Prop}

theorem isChain_iff_ranges {boundaries : List α} :
    boundaries.IsChain relation ↔ ∀ range ∈ ranges boundaries, relation range.1 range.2 := by
  induction boundaries with
  | nil => simp [ranges]
  | cons head tail ih =>
    cases tail with
    | nil => simp [ranges]
    | cons next rest =>
      rw [isChain_cons_cons, ih]
      simp [ranges]

theorem length_ranges (boundaries : List α) :
    (ranges boundaries).length = boundaries.length - 1 := by
  simp [ranges]

end

variable {length : ℕ} {boundaries rest : List ℕ} {range : ℕ × ℕ}

section
variable {α : Type*} {fine middle coarse : List α}

theorem Coarsens.refl (boundaries : List α) : Coarsens boundaries boundaries :=
  ⟨.refl _, rfl, rfl⟩

theorem Coarsens.trans (left : Coarsens fine middle) (right : Coarsens middle coarse) :
    Coarsens fine coarse :=
  ⟨right.sublist.trans left.sublist, right.first.trans left.first, right.last.trans left.last⟩

theorem Partitions.coarsen {fine coarse : List ℕ} (partitions : Partitions length fine)
    (coarsens : Coarsens fine coarse) : Partitions length coarse :=
  ⟨coarsens.first.trans partitions.first, coarsens.last.trans partitions.last,
    partitions.increasing.sublist coarsens.sublist⟩

theorem coarsens_append {front back : List α} (some_ : front ≠ []) (others : back ≠ [])
    (stretch : List α) : Coarsens (front ++ (stretch ++ back)) (front ++ back) := by
  refine ⟨.append_left (sublist_append_right ..) _, ?_, ?_⟩
  · rw [head?_append_of_ne_nil _ some_, head?_append_of_ne_nil _ some_]
  · rw [getLast?_append_of_ne_nil _ others, ← append_assoc, getLast?_append_of_ne_nil _ others]

theorem coarsens_take_drop (boundaries : List α) {start stop : ℕ} (inner : 0 < start)
    (ordered : start ≤ stop) (inside : stop < boundaries.length) :
    Coarsens boundaries (boundaries.take start ++ boundaries.drop stop) := by
  have whole : boundaries = boundaries.take start ++
      ((boundaries.drop start).take (stop - start) ++ boundaries.drop stop) := by
    rw [show boundaries.drop stop = (boundaries.drop start).drop (stop - start) by
      rw [drop_drop]; congr 1; omega, take_append_drop, take_append_drop]
  have front : boundaries.take start ≠ [] := by
    rw [← length_pos_iff, length_take]
    omega
  have back : boundaries.drop stop ≠ [] := by
    rw [← length_pos_iff, length_drop]
    omega
  nth_rewrite 1 [whole]
  exact coarsens_append front back _

theorem coarsens_eraseIdx (boundaries : List α) {place : ℕ} (inner : 0 < place)
    (inside : place + 1 < boundaries.length) :
    Coarsens boundaries (boundaries.eraseIdx place) := by
  rw [eraseIdx_eq_take_drop_succ]
  exact coarsens_take_drop boundaries inner (Nat.le_succ _) inside

end

section Refining
variable {α : Type*} {relation : α → α → Prop} {between : α → α → List α}

theorem subdivide_cons_cons (first second : α) (rest : List α) :
    subdivide between (first :: second :: rest) =
      first :: between first second ++ subdivide between (second :: rest) := by
  simp [subdivide, ranges]

theorem head?_subdivide (boundaries : List α) :
    (subdivide between boundaries).head? = boundaries.head? := by
  match boundaries with
  | [] => rfl
  | [first] => rfl
  | first :: second :: rest => rw [subdivide_cons_cons]; rfl

theorem getLast?_subdivide (boundaries : List α) :
    (subdivide between boundaries).getLast? = boundaries.getLast? := by
  cases boundaries with
  | nil => rfl
  | cons first rest => rw [subdivide, getLast?_eq_some_getLast (cons_ne_nil _ _)]; simp

theorem subdivide_eq_self {boundaries : List α}
    (nothing : ∀ range ∈ ranges boundaries, between range.1 range.2 = []) :
    subdivide between boundaries = boundaries := by
  induction boundaries with
  | nil => rfl
  | cons first rest ih =>
    cases rest with
    | nil => rfl
    | cons second rest =>
      rw [subdivide_cons_cons, nothing (first, second) mem_cons_self,
        ih (forall_mem_of_forall_mem_cons nothing)]
      rfl

/-- **Refining.** What holds along every refined range holds along the refinement. -/
theorem isChain_subdivide {boundaries : List α}
    (along : ∀ range ∈ ranges boundaries,
      (range.1 :: between range.1 range.2 ++ [range.2]).IsChain relation) :
    (subdivide between boundaries).IsChain relation := by
  induction boundaries with
  | nil => exact .nil
  | cons first rest ih =>
    cases rest with
    | nil => exact .singleton first
    | cons second rest =>
      have here := along (first, second) mem_cons_self
      have later := ih (forall_mem_of_forall_mem_cons along)
      rw [subdivide_cons_cons]
      rw [isChain_append] at here ⊢
      refine ⟨here.1, later, ?_⟩
      rw [head?_subdivide]
      exact here.2.2

end Refining

/-- The number of parts of more than one position. -/
def wide (boundaries : List ℕ) : ℕ :=
  (ranges boundaries).countP fun range => 2 ≤ range.2 - range.1

theorem wide_cons_cons (first second : ℕ) (rest : List ℕ) :
    wide (first :: second :: rest) =
      wide (second :: rest) + if 2 ≤ second - first then 1 else 0 := by
  have step : ranges (first :: second :: rest) = (first, second) :: ranges (second :: rest) := rfl
  rw [wide, step, countP_cons]
  simp [wide]

theorem getD_add_le (increasing : boundaries.IsChain (· < ·)) {i j : ℕ} (ordered : i ≤ j)
    (inside : j < boundaries.length) :
    boundaries.getD i 0 + (j - i) ≤ boundaries.getD j 0 := by
  induction j with
  | zero =>
    obtain rfl : i = 0 := by omega
    simp
  | succ j ih =>
    rcases Nat.eq_or_lt_of_le ordered with rfl | earlier
    · simp
    · have before := ih (by omega) (by omega)
      have step := isChain_iff_getElem.mp increasing j inside
      rw [getD_eq_getElem _ _ inside]
      rw [getD_eq_getElem _ _ (show j < boundaries.length by omega)] at before
      omega

theorem Partitions.getD_bounds (partitions : Partitions length boundaries) {i : ℕ}
    (inside : i < boundaries.length) :
    i ≤ boundaries.getD i 0 ∧ boundaries.getD i 0 + (boundaries.length - 1 - i) ≤ length := by
  have first : boundaries.getD 0 0 = 0 := by
    rw [getD_eq_getElem?_getD, ← head?_eq_getElem?, partitions.first]
    rfl
  have last : boundaries.getD (boundaries.length - 1) 0 = length := by
    rw [getD_eq_getElem?_getD, ← getLast?_eq_getElem?, partitions.last]
    rfl
  have before := getD_add_le partitions.increasing (Nat.zero_le i) inside
  have after := getD_add_le partitions.increasing (show i ≤ boundaries.length - 1 by omega)
    (by omega)
  omega

/-- The parts of an increasing list, with the wide ones counted twice, fit between its
ends. -/
theorem length_add_wide_le {start stop : ℕ} (increasing : (start :: rest).IsChain (· < ·))
    (last : (start :: rest).getLast? = some stop) :
    start + rest.length + wide (start :: rest) ≤ stop := by
  induction rest generalizing start with
  | nil =>
    obtain rfl : start = stop := by simpa using last
    simp [wide, ranges]
  | cons next rest ih =>
    obtain ⟨ordered, increasing'⟩ := isChain_cons_cons.mp increasing
    have later := ih increasing' (by simpa using last)
    rw [wide_cons_cons, length_cons]
    split <;> omega

theorem Partitions.length_add_wide_le (partitions : Partitions length boundaries) :
    boundaries.length + wide boundaries ≤ length + 1 := by
  obtain ⟨first, last, increasing⟩ := partitions
  cases boundaries with
  | nil => contradiction
  | cons start rest =>
    obtain rfl : start = 0 := by simpa using first
    have bound := Boundaries.length_add_wide_le increasing last
    rw [length_cons]
    omega

theorem length_le_subdivide {α : Type*} (between : α → α → List α) (boundaries : List α) :
    boundaries.length ≤ (subdivide between boundaries).length := by
  induction boundaries with
  | nil => exact Nat.zero_le _
  | cons first rest ih =>
    cases rest with
    | nil => exact le_rfl
    | cons second rest =>
      rw [subdivide_cons_cons, length_append, length_cons, length_cons]
      exact Nat.add_comm _ 1 ▸ Nat.add_le_add (Nat.le_add_left ..) ih

section
variable {length : ℕ} {boundaries : List ℕ} (partitions : Partitions length boundaries)
include partitions

theorem Partitions.eq_cons_cons (nonempty : 0 < length) :
    ∃ next rest, boundaries = 0 :: next :: rest := by
  obtain ⟨first, last, -⟩ := partitions
  match boundaries with
  | [] => contradiction
  | [only] =>
    have start : only = 0 := by simpa using first
    have stop : only = length := by simpa using last
    omega
  | start :: next :: rest =>
    obtain rfl : start = 0 := by simpa using first
    exact ⟨next, rest, rfl⟩

theorem Partitions.mem_le {boundary : ℕ} (member : boundary ∈ boundaries) : boundary ≤ length := by
  obtain ⟨front, rfl⟩ := getLast?_eq_some_iff.mp partitions.last
  rcases mem_append.mp member with inner | last
  · have pairwise := partitions.increasing.pairwise
    exact ((pairwise_append.mp pairwise).2.2 boundary inner length mem_cons_self).le
  · exact (mem_singleton.mp last).le

theorem Partitions.range_le (member : range ∈ ranges boundaries) :
    range.1 < range.2 ∧ range.2 ≤ length := by
  refine ⟨isChain_iff_ranges.mp partitions.increasing range member, partitions.mem_le ?_⟩
  exact mem_of_mem_tail (of_mem_zip member).2

end

/-- Nonempty ranges after each other, from a start to an end. -/
def Consecutive : ℕ → ℕ → List (ℕ × ℕ) → Prop
  | start, stop, [] => start = stop
  | start, stop, range :: rest =>
    range.1 = start ∧ start < range.2 ∧ Consecutive range.2 stop rest

variable {start stop : ℕ} {front back spans : List (ℕ × ℕ)}

theorem Consecutive.le (consecutive : Consecutive start stop spans) : start ≤ stop := by
  induction spans generalizing start with
  | nil => exact consecutive.le
  | cons range rest ih => exact consecutive.2.1.le.trans (ih consecutive.2.2)

theorem consecutive_ranges (increasing : (start :: rest).IsChain (· < ·))
    (last : (start :: rest).getLast? = some stop) :
    Consecutive start stop (ranges (start :: rest)) := by
  induction rest generalizing start with
  | nil => simpa [ranges, Consecutive] using last
  | cons next rest ih =>
    obtain ⟨ordered, increasing'⟩ := isChain_cons_cons.mp increasing
    exact ⟨rfl, ordered, ih increasing' (by simpa using last)⟩

theorem Partitions.consecutive (partitions : Partitions length boundaries) :
    Consecutive 0 length (ranges boundaries) := by
  obtain ⟨first, last, increasing⟩ := partitions
  cases boundaries with
  | nil => contradiction
  | cons start rest =>
    obtain rfl : start = 0 := by simpa using first
    exact consecutive_ranges increasing last

theorem Consecutive.flatten_slices (data : Bytes) (consecutive : Consecutive start stop spans) :
    (spans.map fun range => Bytes.slice data range.1 range.2).flatten =
      Bytes.slice data start stop := by
  induction spans generalizing start with
  | nil =>
    obtain rfl : start = stop := consecutive
    simp [Bytes.slice]
  | cons first rest ih =>
    obtain ⟨begins, nonempty, later⟩ := consecutive
    have bound := later.le
    rw [map_cons, flatten_cons, ih later, begins]
    simp only [Bytes.slice]
    rw [show stop - start = (first.2 - start) + (stop - first.2) by omega, take_add,
      drop_drop, Nat.add_sub_cancel' nonempty.le]

theorem Partitions.flatten_slices {data : Bytes} (partitions : Partitions data.length boundaries) :
    ((ranges boundaries).map fun range => Bytes.slice data range.1 range.2).flatten = data := by
  rw [partitions.consecutive.flatten_slices data]
  simp [Bytes.slice]

end Boundaries
