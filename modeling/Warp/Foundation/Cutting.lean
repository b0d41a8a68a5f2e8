import Warp.Foundation.Bytes

/-! # Cutting an interval into ranges

From the position at which a chunk is entered, the first position with an event ends the chunk and
enters the next one (`Cutting.Chain`). If no cut goes back, the ranges tile the interval exactly if
every cut enters the next chunk where the range ends (`Cutting.Chain.tiles_iff`), and otherwise
cover less (`Cutting.Chain.tiles_of_covered`). Two rules that cut every chunk alike give the same
ranges (`Cutting.Chain.eq_of_related`).
-/

namespace Cutting

open List Option

/-- The ranges, of a start and a length, cover an interval without gap or overlap. -/
def Tiles : ℕ → ℕ → List (ℕ × ℕ) → Prop
  | start, stop, [] => start = stop
  | start, stop, range :: rest => range.1 = start ∧ Tiles (start + range.2) stop rest

/-- How much the ranges cover, if they do not overlap. -/
def covered (ranges : List (ℕ × ℕ)) : ℕ := (ranges.map Prod.snd).sum

/-- Where a chunk starts and at which position it is first examined. -/
structure Entry where
  start : ℕ
  first : ℕ

/-- The end of a chunk: its length and the entry into the next chunk. -/
structure Cut where
  length : ℕ
  next : Entry

variable {ranges : List (ℕ × ℕ)} {entry : Entry} {start : ℕ} {stop : ℕ}

theorem Tiles.covered_eq (tiles : Tiles start stop ranges) :
    start + covered ranges = stop := by
  induction ranges generalizing start with
  | nil => exact tiles
  | cons range rest ih =>
    have later := ih tiles.2
    simp only [covered, map_cons, sum_cons] at later ⊢
    omega

/-- The bytes of tiled ranges, in order, are the bytes of the interval. -/
theorem Tiles.flatten_slices (data : Bytes) (tiles : Tiles start stop ranges)
    (inside : stop ≤ data.length) :
    (ranges.map fun range => Bytes.slice data range.1 (range.1 + range.2)).flatten =
      Bytes.slice data start stop := by
  induction ranges generalizing start with
  | nil =>
    obtain rfl : start = stop := tiles
    simp [Bytes.slice]
  | cons range rest ih =>
    obtain ⟨startEq, later⟩ := tiles
    have total := later.covered_eq
    rw [map_cons, flatten_cons, ih later, startEq]
    simp only [Bytes.slice]
    rw [Nat.add_sub_cancel_left,
      show stop - start = range.2 + (stop - (start + range.2)) by omega, take_add,
      drop_drop]

section Chains
variable (event : Entry → ℕ → Option Cut) (limit : ℕ)

/-- The first cut of a chunk before the limit. -/
def nextCut (entry : Entry) : Option Cut :=
  (List.range' entry.first (limit - entry.first)).findSome? (event entry)

/-- The ranges cut from an entry on. -/
inductive Chain : Entry → List (ℕ × ℕ) → Prop
  | done {entry : Entry} (uncut : nextCut event limit entry = none)
      (ended : limit ≤ entry.start) : Chain entry []
  | final {entry : Entry} (uncut : nextCut event limit entry = none)
      (open_ : entry.start < limit) : Chain entry [(entry.start, limit - entry.start)]
  | cut {entry : Entry} {cut : Cut} {rest : List (ℕ × ℕ)}
      (here : nextCut event limit entry = some cut) (later : Chain cut.next rest) :
      Chain entry ((entry.start, cut.length) :: rest)

/-- An entry is entered by the first cut of the chunk before. -/
def Follows (entry next : Entry) : Prop :=
  ∃ cut, nextCut event limit entry = some cut ∧ cut.next = next

/-- The entries reached from an entry. -/
def Visits : Entry → Entry → Prop := Relation.ReflTransGen (Follows event limit)

/-- How long the chunk of an entry is and where the next chunk starts. -/
def stepFrom (entry : Entry) : ℕ × ℕ :=
  match nextCut event limit entry with
  | some cut => (cut.length, cut.next.start)
  | none => (limit - entry.start, limit)

/-- Every cut ends a nonempty chunk at or before the start of the next one, within the
limit. -/
def Advances : Prop :=
  ∀ entry cut, nextCut event limit entry = some cut →
    0 < cut.length ∧ entry.start + cut.length ≤ cut.next.start ∧ cut.next.start ≤ limit

variable {event limit}

theorem nextCut_eq_none_iff :
    nextCut event limit entry = none ↔ ∀ i, entry.first ≤ i → i < limit → event entry i = none := by
  simp only [nextCut, findSome?_eq_none_iff, mem_range'_1]
  constructor
  · intro quiet i lower upper
    exact quiet i ⟨lower, by omega⟩
  · intro quiet i inside
    exact quiet i inside.1 (by omega)

theorem nextCut_eq_some_iff {cut : Cut} :
    nextCut event limit entry = some cut ↔
      ∃ i, entry.first ≤ i ∧ i < limit ∧ event entry i = some cut ∧
        ∀ j, entry.first ≤ j → j < i → event entry j = none := by
  simp only [nextCut]
  generalize size : limit - entry.first = count
  generalize entry.first = first at size
  induction count generalizing first with
  | zero =>
    simp only [range'_zero, findSome?_nil, reduceCtorEq, false_iff, not_exists, not_and]
    intro i lower upper
    omega
  | succ count ih =>
    rw [range'_succ, findSome?_cons]
    cases here : event entry first with
    | some found =>
      constructor
      · intro same
        exact ⟨first, le_rfl, by omega, here.trans same, fun j lower upper => by omega⟩
      · rintro ⟨i, lower, -, at_, quiet⟩
        rcases Nat.eq_or_lt_of_le lower with rfl | later
        · exact here.symm.trans at_
        · rw [quiet first le_rfl later] at here
          contradiction
    | none =>
      refine (ih (first + 1) (by omega)).trans ⟨?_, ?_⟩
      · rintro ⟨i, lower, upper, at_, quiet⟩
        refine ⟨i, by omega, upper, at_, ?_⟩
        intro j jLower jUpper
        rcases Nat.eq_or_lt_of_le jLower with rfl | later
        · exact here
        · exact quiet j later jUpper
      · rintro ⟨i, lower, upper, at_, quiet⟩
        rcases Nat.eq_or_lt_of_le lower with rfl | later
        · rw [here] at at_
          contradiction
        · exact ⟨i, later, upper, at_, fun j jLower jUpper => quiet j (by omega) jUpper⟩

theorem Chain.start_of_tiles (chain : Chain event limit entry ranges)
    (tiles : Tiles start limit ranges) (inside : entry.start ≤ limit) : entry.start = start := by
  cases chain with
  | done uncut ended =>
    have stop : start = limit := tiles
    omega
  | final uncut open_ => exact tiles.1
  | cut here later => exact tiles.1

section
variable (advances : Advances event limit) {entry : Entry} {ranges : List (ℕ × ℕ)}
  (chain : Chain event limit entry ranges)
include advances chain

/-- **Tiling.** The ranges tile exactly if every cut enters the next chunk where the
range ends. -/
theorem Chain.tiles_iff (inside : entry.start ≤ limit) :
    Tiles entry.start limit ranges ↔
      ∀ reached, Visits event limit entry reached → ∀ cut,
        nextCut event limit reached = some cut → cut.next.start = reached.start + cut.length := by
  induction chain with
  | @done entry uncut ended =>
    refine iff_of_true (le_antisymm inside ended) ?_
    intro reached visits cut at_
    rcases visits.cases_head with rfl | ⟨next, ⟨other, follows, -⟩, -⟩
    · rw [uncut] at at_
      contradiction
    · rw [uncut] at follows
      contradiction
  | @final entry uncut open_ =>
    refine iff_of_true ⟨rfl, Nat.add_sub_cancel' inside⟩ ?_
    intro reached visits cut at_
    rcases visits.cases_head with rfl | ⟨next, ⟨other, follows, -⟩, -⟩
    · rw [uncut] at at_
      contradiction
    · rw [uncut] at follows
      contradiction
  | @cut entry cut rest here later ih =>
    obtain ⟨-, -, bounded⟩ := advances entry cut here
    constructor
    · intro tiles
      have exact_ := later.start_of_tiles tiles.2 bounded
      intro reached visits other at_
      rcases visits.cases_head with rfl | ⟨next, ⟨same, follows, rfl⟩, onward⟩
      · rw [here, some.injEq] at at_
        rw [← at_]
        exact exact_
      · rw [here, some.injEq] at follows
        subst follows
        exact (ih bounded).mp (exact_ ▸ tiles.2) reached onward other at_
    · intro exactly
      refine ⟨rfl, ?_⟩
      rw [← exactly entry .refl cut here]
      apply (ih bounded).mpr
      intro reached visits
      exact exactly reached (.head ⟨cut, here, rfl⟩ visits)

/-- Ranges that do not tile cover less than the interval. -/
theorem Chain.tiles_of_covered (inside : entry.start ≤ limit) :
    entry.start + covered ranges ≤ limit ∧
      (entry.start + covered ranges = limit → Tiles entry.start limit ranges) := by
  induction chain with
  | @done entry uncut ended => exact ⟨by simpa [covered] using inside, fun same => same⟩
  | @final entry uncut open_ =>
    refine ⟨by simp [covered]; omega, fun _ => ⟨rfl, Nat.add_sub_cancel' inside⟩⟩
  | @cut entry cut rest here later ih =>
    obtain ⟨-, forward, bounded⟩ := advances entry cut here
    obtain ⟨bound, tiles⟩ := ih bounded
    simp only [covered, map_cons, sum_cons] at bound tiles ⊢
    refine ⟨by omega, fun total => ⟨rfl, ?_⟩⟩
    rw [show entry.start + cut.length = cut.next.start by omega]
    exact tiles (by omega)

theorem Chain.range_le : ∀ range ∈ ranges, range.1 + range.2 ≤ limit := by
  induction chain with
  | done uncut ended => simp
  | @final entry uncut open_ =>
    exact forall_mem_singleton.mpr (Nat.add_sub_cancel' open_.le).le
  | @cut entry cut rest here later ih =>
    obtain ⟨-, forward, bounded⟩ := advances entry cut here
    exact forall_mem_cons.mpr ⟨forward.trans bounded, ih⟩

end

theorem Chain.eq_cons (chain : Chain event limit entry ranges) (open_ : entry.start < limit) :
    ∃ rest, ranges = (entry.start, (stepFrom event limit entry).1) :: rest := by
  cases chain with
  | done uncut ended => omega
  | final uncut _ => exact ⟨[], by rw [stepFrom, uncut]⟩
  | @cut _ cut rest here later => exact ⟨rest, by rw [stepFrom, here]⟩

theorem Chain.exists_tail {cut : Cut} (chain : Chain event limit entry ranges)
    (here : nextCut event limit entry = some cut) :
    ∃ rest, ranges = (entry.start, cut.length) :: rest ∧ Chain event limit cut.next rest := by
  cases chain with
  | done uncut _ | final uncut _ =>
    rw [uncut] at here
    contradiction
  | cut at_ later =>
    rw [at_, some.injEq] at here
    subst here
    exact ⟨_, rfl, later⟩

end Chains

variable {left right : Entry → ℕ → Option Cut} {limit : ℕ}

/-- Two rules cut the chunk of two entries alike if one is quiet before the later entry and they
agree from there on, up to the first cut. -/
theorem nextCut_congr {here there : Entry} (earlier : here.first ≤ there.first)
    (quiet : ∀ i, here.first ≤ i → i < there.first → left here i = none)
    (same : ∀ i, there.first ≤ i → (∀ j, there.first ≤ j → j < i → right there j = none) →
      left here i = right there i) :
    nextCut left limit here = nextCut right limit there := by
  apply ext
  intro cut
  rw [nextCut_eq_some_iff, nextCut_eq_some_iff]
  constructor
  · rintro ⟨i, lower, upper, at_, before⟩
    have after : there.first ≤ i := by
      by_contra outside
      rw [quiet i lower (Nat.lt_of_not_le outside)] at at_
      contradiction
    have uncut (j : ℕ) (jLower : there.first ≤ j) (jUpper : j < i) : right there j = none := by
      induction j using Nat.strong_induction_on with
      | _ j ih =>
        rw [← same j jLower fun k kLower kUpper => ih k kUpper kLower (kUpper.trans jUpper)]
        exact before j (earlier.trans jLower) jUpper
    exact ⟨i, after, upper, same i after uncut ▸ at_, uncut⟩
  · rintro ⟨i, lower, upper, at_, before⟩
    refine ⟨i, earlier.trans lower, upper, (same i lower before).trans at_, ?_⟩
    intro j jLower jUpper
    rcases Nat.lt_or_ge j there.first with outside | after
    · exact quiet j jLower outside
    · rw [same j after fun k kLower kUpper => before k kLower (kUpper.trans jUpper)]
      exact before j after jUpper

/-- **Agreement.** Rules that cut related entries alike, and enter entries that are related
again, cut the same ranges. -/
theorem Chain.eq_of_related {related : Entry → Entry → Prop}
    (alike : ∀ here there, related here there →
      here.start = there.start ∧ nextCut left limit here = nextCut right limit there)
    (enters : ∀ here there cut, related here there → nextCut left limit here = some cut →
      related cut.next cut.next)
    {here there : Entry} (start : related here there) {others : List (ℕ × ℕ)}
    (chain : Chain left limit here ranges) (other : Chain right limit there others) :
    ranges = others := by
  induction chain generalizing there others with
  | @done here uncut ended =>
    obtain ⟨starts, cuts⟩ := alike _ _ start
    cases other with
    | done _ _ => rfl
    | final _ open_ => omega
    | cut at_ _ =>
      rw [← cuts, uncut] at at_
      contradiction
  | @final here uncut open_ =>
    obtain ⟨starts, cuts⟩ := alike _ _ start
    cases other with
    | done _ ended => omega
    | final _ _ => rw [starts]
    | cut at_ _ =>
      rw [← cuts, uncut] at at_
      contradiction
  | @cut here cut rest at_ later ih =>
    obtain ⟨starts, cuts⟩ := alike _ _ start
    obtain ⟨rest', rfl, later'⟩ := other.exists_tail (cuts ▸ at_)
    rw [starts, ih (enters _ _ cut start at_) later']

end Cutting
