import Mathlib.Algebra.Group.Nat.Defs
import Mathlib.Data.List.GetD
import Mathlib.Data.Nat.Log

/-! # Folding a list in pairs

Values are combined in neighbouring pairs, an unpaired last value with itself, until one is left
(`PairFold.top`). A path of partners with directions climbs from a value to the top
(`PairFold.climb`). Directions of the right length name a position (`PairFold.position`), which
climbs to the top along its partners (`PairFold.climb_partners`); with injective combining no other
path of that length does (`PairFold.climb_eq_top`), and two levels of one height fold to one value
exactly if they agree at every position (`PairFold.top_eq_of_positions`,
`PairFold.positions_eq_of_top_eq`).
-/

namespace PairFold

open List

variable {α : Type*} (combine : α → α → α) (level : List α) {size count : ℕ} {second first : List α}

/-- One level up: neighbours are combined, an unpaired last value with itself. -/
def pairUp : List α → List α
  | [] => []
  | [last] => [combine last last]
  | left :: right :: rest => combine left right :: pairUp rest

/-- The level reached after a number of pairings. -/
def levelAt (count : ℕ) (level : List α) : List α :=
  (pairUp combine)^[count] level

/-- A level followed by a number of the levels above it. -/
def stacked : ℕ → List α → List α
  | 0, level => level
  | count + 1, level => level ++ stacked count (pairUp combine level)

/-- The value left once a level is folded to a single value. -/
def top (fallback : α) (level : List α) : α :=
  (levelAt combine (Nat.clog 2 level.length) level).headD fallback

/-- Combine a value upward with partners; a set direction puts the value on the
right of its partner. -/
def climb (start : α) (path : List (α × Bool)) : α :=
  path.foldl (fun current step =>
    if step.2 then combine step.1 current else combine current step.1) start

/-- The low binary digits of a number, lowest first. -/
def lowBits (count index : ℕ) : List Bool :=
  (List.range count).map index.testBit

/-- The position of a level of the given size that a list of directions, lowest
first, selects. A step past the end of a level falls back on its last value. -/
def position : List Bool → ℕ → ℕ
  | [], _ => 0
  | right :: above, size => min (2 * position above ((size + 1) / 2) + right.toNat) (size - 1)

/-- The partners met when climbing from the position a list of directions selects. -/
def partners (fallback : α) : List Bool → List α → List α
  | [], _ => []
  | right :: above, level =>
    level.getD (min (2 * position above ((level.length + 1) / 2) + (!right).toNat)
      (level.length - 1)) fallback :: partners fallback above (pairUp combine level)

@[simp] theorem climb_nil (start : α) : climb combine start [] = start := rfl

@[simp] theorem climb_cons (start : α) (step : α × Bool) (path : List (α × Bool)) :
    climb combine start (step :: path) =
      climb combine (if step.2 then combine step.1 start else combine start step.1) path := rfl

theorem climb_append (start : α) (first second : List (α × Bool)) :
    climb combine start (first ++ second) = climb combine (climb combine start first) second :=
  foldl_append

@[simp] theorem levelAt_zero : levelAt combine 0 level = level := rfl

theorem levelAt_succ (count : ℕ) (level : List α) :
    levelAt combine (count + 1) level = levelAt combine count (pairUp combine level) := rfl

theorem levelAt_succ_pairUp (count : ℕ) (level : List α) :
    levelAt combine (count + 1) level = pairUp combine (levelAt combine count level) :=
  Function.iterate_succ_apply' _ _ _

theorem levelAt_add (first second : ℕ) (level : List α) :
    levelAt combine (first + second) level = levelAt combine first (levelAt combine second level) :=
  Function.iterate_add_apply _ _ _ _

@[simp] theorem length_pairUp :
    (pairUp combine level).length = (level.length + 1) / 2 := by
  induction level using pairUp.induct with
  | case1 => simp [pairUp]
  | case2 last => simp [pairUp]
  | case3 left right rest ih =>
    simp only [pairUp, length_cons, ih]
    omega

/-- The value above an even position combines it with its right neighbour, or
with itself at the end of the level. -/
theorem getElem?_pairUp (index : ℕ) :
    (pairUp combine level)[index]? =
      level[2 * index]?.map fun left => combine left (level[2 * index + 1]?.getD left) := by
  induction level using pairUp.induct generalizing index with
  | case1 => rfl
  | case2 last =>
    cases index with
    | zero => rfl
    | succ index => simp [pairUp, Nat.mul_add]
  | case3 left right rest ih =>
    cases index with
    | zero => rfl
    | succ index =>
      simp only [pairUp, getElem?_cons_succ, ih, Nat.mul_add, Nat.mul_one]

theorem mem_pairUp {level : List α} {value : α} (member : value ∈ pairUp combine level) :
    ∃ left right, value = combine left right := by
  induction level using pairUp.induct with
  | case1 => exact (not_mem_nil member).elim
  | case2 last => exact ⟨last, last, mem_singleton.mp member⟩
  | case3 left right rest ih =>
    rcases mem_cons.mp member with here | there
    · exact ⟨left, right, here⟩
    · exact ih there

theorem clog_pairUp (several : 2 ≤ size) :
    Nat.clog 2 size = Nat.clog 2 ((size + 1) / 2) + 1 :=
  Nat.clog_of_two_le Nat.one_lt_two several

theorem two_le_of_clog_succ (tall : Nat.clog 2 size = count + 1) : 2 ≤ size := by
  by_contra small
  rw [Nat.clog_of_right_le_one (by omega)] at tall
  omega

theorem clog_half (tall : Nat.clog 2 size = count + 1) :
    Nat.clog 2 ((size + 1) / 2) = count := by
  have step := clog_pairUp (two_le_of_clog_succ tall)
  omega

theorem top_pairUp (fallback : α) {level : List α} (several : 2 ≤ level.length) :
    top combine fallback level = top combine fallback (pairUp combine level) := by
  unfold top
  rw [clog_pairUp several, levelAt_succ, length_pairUp]

theorem eq_singleton_of_clog_zero {level : List α} (nonempty : level ≠ [])
    (flat : Nat.clog 2 level.length = 0) : ∃ value, level = [value] := by
  apply length_eq_one_iff.mp
  have positive := length_pos_iff.mpr nonempty
  by_contra several
  have := Nat.clog_pos Nat.one_lt_two (show 1 < level.length by omega)
  omega

theorem pairUp_ne_nil {level : List α} (nonempty : level ≠ []) : pairUp combine level ≠ [] := by
  rw [← length_pos_iff] at nonempty ⊢
  rw [length_pairUp]
  omega

theorem levelAt_ne_nil {level : List α} (nonempty : level ≠ []) (count : ℕ) :
    levelAt combine count level ≠ [] := by
  induction count generalizing level with
  | zero => exact nonempty
  | succ count ih => exact ih (pairUp_ne_nil combine nonempty)

theorem clog_levelAt (count : ℕ) :
    Nat.clog 2 (levelAt combine count level).length = Nat.clog 2 level.length - count := by
  induction count generalizing level with
  | zero => rfl
  | succ count ih =>
    rw [levelAt_succ, ih, length_pairUp]
    by_cases several : 2 ≤ level.length
    · rw [clog_pairUp several]
      omega
    · rw [Nat.clog_of_right_le_one (by omega), Nat.clog_of_right_le_one (by omega)]
      omega

theorem top_levelAt (fallback : α) (level : List α) (low : count ≤ Nat.clog 2 level.length) :
    top combine fallback (levelAt combine count level) = top combine fallback level := by
  unfold top
  rw [clog_levelAt, ← levelAt_add, Nat.sub_add_cancel low]

theorem getLast?_stacked (fallback : α) {level : List α} (nonempty : level ≠ [])
    (tall : Nat.clog 2 level.length = count) :
    (stacked combine count level).getLast? = some (top combine fallback level) := by
  induction count generalizing level with
  | zero =>
    obtain ⟨value, rfl⟩ := eq_singleton_of_clog_zero nonempty tall
    rfl
  | succ count ih =>
    have upper := ih (pairUp_ne_nil combine nonempty) (by rw [length_pairUp]; exact clog_half tall)
    rw [stacked, getLast?_append, upper, top_pairUp combine fallback (two_le_of_clog_succ tall)]
    rfl

section Positions

theorem lowBits_succ (count index : ℕ) :
    lowBits (count + 1) index = decide (index % 2 = 1) :: lowBits count (index / 2) := by
  unfold lowBits
  rw [range_succ_eq_map, map_cons, map_map, Nat.testBit_zero]
  congr 1
  apply map_congr_left
  intro digit _
  exact Nat.testBit_add_one index digit

@[simp] theorem length_lowBits (count index : ℕ) : (lowBits count index).length = count := by
  simp [lowBits]

variable (bits : List Bool)

theorem position_lt (positive : 0 < size) :
    position bits size < size := by
  cases bits with
  | nil => exact positive
  | cons right above =>
    simp only [position]
    omega

theorem exists_lowBits_eq :
    ∃ index < 2 ^ bits.length, lowBits bits.length index = bits := by
  induction bits with
  | nil => exact ⟨0, Nat.one_pos, rfl⟩
  | cons low high ih =>
    obtain ⟨index, small, digits⟩ := ih
    refine ⟨2 * index + low.toNat, ?_, ?_⟩
    · have bit := Bool.toNat_lt low
      rw [length_cons, Nat.pow_succ]
      omega
    · rw [length_cons, lowBits_succ]
      cases low with
      | false =>
        rw [Bool.toNat_false, Nat.add_zero, Nat.mul_mod_right, Nat.mul_div_cancel_left _ (by omega), digits]
        rfl
      | true =>
        rw [Bool.toNat_true, Nat.mul_add_mod, Nat.mul_add_div (by omega), Nat.add_zero, digits]
        rfl

theorem left_child_lt (above : List Bool) (positive : 0 < size) :
    2 * position above ((size + 1) / 2) < size := by
  have inside := position_lt above (show 0 < (size + 1) / 2 by omega)
  omega

theorem position_lowBits (count index size : ℕ) (inside : index < size)
    (tall : Nat.clog 2 size = count) : position (lowBits count index) size = index := by
  induction count generalizing index size with
  | zero =>
    have bound : size ≤ 1 := by
      by_contra several
      have := Nat.clog_pos Nat.one_lt_two (show 1 < size by omega)
      omega
    simp only [lowBits, range_zero, map_nil, position]
    omega
  | succ count ih =>
    rw [lowBits_succ, position, ih (index / 2) ((size + 1) / 2) (by omega) (clog_half tall)]
    by_cases odd : index % 2 = 1
    · simp only [odd, decide_true, Bool.toNat_true]
      omega
    · simp only [odd, decide_false, Bool.toNat_false]
      omega

/-- The neighbour of an index, or the index itself at the end of the level, is
the clamped place of its partner. -/
theorem partner_index {index : ℕ} (inside : index < size) :
    (if (if index % 2 = 0 then index + 1 else index - 1) < size
      then (if index % 2 = 0 then index + 1 else index - 1) else index) =
      min (2 * (index / 2) + (!decide (index % 2 = 1)).toNat) (size - 1) := by
  by_cases odd : index % 2 = 1
  · simp only [odd, Nat.one_ne_zero, ↓reduceIte, decide_true, Bool.not_true, Bool.toNat_false]
    split <;> omega
  · have even : index % 2 = 0 := by omega
    simp only [even, Nat.zero_ne_one, ↓reduceIte, decide_false, Bool.not_false, Bool.toNat_true]
    split <;> omega

/-- A level's value above two children, by the clamped positions of both. -/
theorem getD_pairUp (fallback : α) {level : List α} (above : List Bool)
    (nonempty : level ≠ []) :
    (pairUp combine level).getD (position above ((level.length + 1) / 2)) fallback =
      combine
        (level.getD (min (2 * position above ((level.length + 1) / 2) + false.toNat)
          (level.length - 1)) fallback)
        (level.getD (min (2 * position above ((level.length + 1) / 2) + true.toNat)
          (level.length - 1)) fallback) := by
  have inside := left_child_lt above (length_pos_iff.mpr nonempty)
  generalize position above ((level.length + 1) / 2) = parent at inside
  rw [getD_eq_getElem?_getD, getElem?_pairUp, getElem?_eq_getElem inside]
  simp only [Option.map_some, Option.getD_some, Bool.toNat_false, Nat.add_zero, Bool.toNat_true]
  rw [Nat.min_eq_left (by omega), getD_eq_getElem _ _ inside]
  congr 1
  by_cases paired : 2 * parent + 1 < level.length
  · rw [getElem?_eq_getElem paired, Option.getD_some, Nat.min_eq_left (by omega),
      getD_eq_getElem _ _ paired]
  · rw [getElem?_eq_none (by omega), Option.getD_none,
      show min (2 * parent + 1) (level.length - 1) = 2 * parent by omega,
      getD_eq_getElem _ _ inside]

@[simp] theorem length_partners (fallback : α) (bits : List Bool) (level : List α) :
    (partners combine fallback bits level).length = bits.length := by
  induction bits generalizing level with
  | nil => rfl
  | cons right above ih => simp [partners, ih]

/-- **Completeness.** Along its partners every position climbs to the top. -/
theorem climb_partners (fallback : α) (bits : List Bool) {level : List α}
    (nonempty : level ≠ []) (tall : Nat.clog 2 level.length = bits.length) :
    climb combine (level.getD (position bits level.length) fallback)
      ((partners combine fallback bits level).zip bits) = top combine fallback level := by
  induction bits generalizing level with
  | nil =>
    obtain ⟨value, rfl⟩ := eq_singleton_of_clog_zero nonempty tall
    rfl
  | cons right above ih =>
    have several := two_le_of_clog_succ tall
    have upper := ih (pairUp_ne_nil combine nonempty) (by rw [length_pairUp]; exact clog_half tall)
    rw [top_pairUp combine fallback several, ← upper, length_pairUp,
      getD_pairUp combine fallback above nonempty]
    cases right <;> rfl

/-- **Soundness.** A path that reaches the top from as deep as the level starts
at the value its directions select and goes along that value's partners. -/
theorem climb_eq_top (injective : Function.Injective2 combine)
    (fallback start : α) (path : List (α × Bool)) {level : List α} (nonempty : level ≠ [])
    (tall : Nat.clog 2 level.length = path.length)
    (reached : climb combine start path = top combine fallback level) :
    start = level.getD (position (path.map Prod.snd) level.length) fallback ∧
      path.map Prod.fst = partners combine fallback (path.map Prod.snd) level := by
  induction path generalizing start level with
  | nil =>
    obtain ⟨value, rfl⟩ := eq_singleton_of_clog_zero nonempty tall
    exact ⟨reached, rfl⟩
  | cons step path ih =>
    obtain ⟨partner, right⟩ := step
    rw [top_pairUp combine fallback (two_le_of_clog_succ tall), climb_cons] at reached
    obtain ⟨parent, upper⟩ := ih _ (pairUp_ne_nil combine nonempty)
      (by rw [length_pairUp]; exact clog_half tall) reached
    rw [length_pairUp, getD_pairUp combine fallback _ nonempty] at parent
    cases right with
    | false =>
      obtain ⟨here, beside⟩ := injective parent
      exact ⟨here, by rw [map_cons, map_cons, partners, upper, beside]; rfl⟩
    | true =>
      obtain ⟨beside, here⟩ := injective parent
      exact ⟨here, by rw [map_cons, map_cons, partners, upper, beside]; rfl⟩

/-- Levels of one height that agree at every position directions select fold to the
same value. -/
theorem top_eq_of_positions (fallback : α) (count : ℕ) (firstNonempty : first ≠ [])
    (secondNonempty : second ≠ []) (firstTall : Nat.clog 2 first.length = count)
    (secondTall : Nat.clog 2 second.length = count)
    (agree : ∀ bits : List Bool, bits.length = count →
      first.getD (position bits first.length) fallback =
        second.getD (position bits second.length) fallback) :
    top combine fallback first = top combine fallback second := by
  induction count generalizing first second with
  | zero =>
    obtain ⟨value, rfl⟩ := eq_singleton_of_clog_zero firstNonempty firstTall
    obtain ⟨other, rfl⟩ := eq_singleton_of_clog_zero secondNonempty secondTall
    exact agree [] rfl
  | succ count ih =>
    rw [top_pairUp combine fallback (two_le_of_clog_succ firstTall),
      top_pairUp combine fallback (two_le_of_clog_succ secondTall)]
    apply ih (pairUp_ne_nil combine firstNonempty) (pairUp_ne_nil combine secondNonempty)
    · rw [length_pairUp]
      exact clog_half firstTall
    · rw [length_pairUp]
      exact clog_half secondTall
    · intro above length
      rw [length_pairUp, length_pairUp, getD_pairUp combine fallback above firstNonempty,
        getD_pairUp combine fallback above secondNonempty]
      congr 1
      · exact agree (false :: above) (congrArg Nat.succ length)
      · exact agree (true :: above) (congrArg Nat.succ length)

/-- When combining is injective, levels of one height that fold to the same value agree
at every position directions select. -/
theorem positions_eq_of_top_eq (injective : Function.Injective2 combine) (fallback : α)
    (firstNonempty : first ≠ []) (secondNonempty : second ≠ []) {bits : List Bool}
    (firstTall : Nat.clog 2 first.length = bits.length)
    (secondTall : Nat.clog 2 second.length = bits.length)
    (same : top combine fallback first = top combine fallback second) :
    first.getD (position bits first.length) fallback =
      second.getD (position bits second.length) fallback := by
  have climbs := climb_partners combine fallback bits firstNonempty firstTall
  have directions : ((partners combine fallback bits first).zip bits).map Prod.snd = bits :=
    map_snd_zip (length_partners combine fallback bits first).ge
  obtain ⟨start, -⟩ := climb_eq_top combine injective fallback _ _ secondNonempty
    (by rw [length_zip, length_partners, Nat.min_self]; exact secondTall) (climbs.trans same)
  rwa [directions] at start

end Positions

section Leaves
variable (leaf : α → Prop) (separate : ∀ left right, ¬ leaf (combine left right))
include separate

theorem not_leaf_climb (start : α) {path : List (α × Bool)} (nonempty : path ≠ []) :
    ¬ leaf (climb combine start path) := by
  obtain ⟨front, step, rfl⟩ := eq_nil_or_concat path |>.resolve_left nonempty
  rw [concat_eq_append, climb_append, climb_cons, climb_nil]
  split
  · exact separate _ _
  · exact separate _ _

variable (injective : Function.Injective2 combine)
include injective

/-- When leaves are never combined values, a path from a leaf that reaches the
top of a level of leaves is as long as the level is high: a shorter one would
start at a combined value, a longer one would pass through a leaf. -/
theorem length_eq_of_climb_eq_top (fallback start : α) (path : List (α × Bool)) {level : List α}
    (nonempty : level ≠ []) (leaves : ∀ value ∈ level, leaf value) (atLeaf : leaf start)
    (reached : climb combine start path = top combine fallback level) :
    path.length = Nat.clog 2 level.length := by
  rcases Nat.lt_trichotomy path.length (Nat.clog 2 level.length) with short | same | long
  · -- the path is full length for the level that many pairings below the top
    let depth := Nat.clog 2 level.length - path.length
    have raised : levelAt combine depth level ≠ [] := levelAt_ne_nil combine nonempty depth
    have height : Nat.clog 2 (levelAt combine depth level).length = path.length := by
      rw [clog_levelAt]
      omega
    rw [← top_levelAt combine fallback level
      (show depth ≤ Nat.clog 2 level.length by omega)] at reached
    obtain ⟨here, -⟩ := climb_eq_top combine injective fallback start path raised height reached
    rw [getD_eq_getElem _ _ (position_lt _ (length_pos_iff.mpr raised))] at here
    have member : start ∈ levelAt combine depth level := here ▸ getElem_mem _
    obtain ⟨below, shift⟩ : ∃ below, depth = below + 1 := ⟨depth - 1, by omega⟩
    rw [shift, levelAt_succ_pairUp] at member
    obtain ⟨left, right, rfl⟩ := mem_pairUp combine member
    exact (separate left right atLeaf).elim
  · exact same
  · -- the last steps are full length for the level, so what they start at is a leaf of it
    let extra := path.length - Nat.clog 2 level.length
    rw [← take_append_drop extra path, climb_append] at reached
    obtain ⟨here, -⟩ := climb_eq_top combine injective fallback _ (path.drop extra) nonempty
      (by rw [length_drop]; omega) reached
    have inside := position_lt ((path.drop extra).map Prod.snd) (length_pos_iff.mpr nonempty)
    rw [getD_eq_getElem _ _ inside] at here
    have front : path.take extra ≠ [] := by
      rw [← length_pos_iff, length_take]
      omega
    exact (not_leaf_climb combine leaf separate start front
      (here ▸ leaves _ (getElem_mem inside))).elim

/-- When leaves are never combined values, levels of leaves that fold to the same value
are equally high. -/
theorem clog_eq_of_top_eq (fallback : α) (firstNonempty : first ≠ []) (secondNonempty : second ≠ [])
    (firstLeaves : ∀ value ∈ first, leaf value) (secondLeaves : ∀ value ∈ second, leaf value)
    (same : top combine fallback first = top combine fallback second) :
    Nat.clog 2 first.length = Nat.clog 2 second.length := by
  let bits := List.replicate (Nat.clog 2 first.length) false
  have length : bits.length = Nat.clog 2 first.length := length_replicate
  have inside := position_lt bits (length_pos_iff.mpr firstNonempty)
  have climbs := climb_partners combine fallback bits firstNonempty length.symm
  have tall := length_eq_of_climb_eq_top combine leaf separate injective fallback _ _
    secondNonempty secondLeaves
    (by rw [getD_eq_getElem _ _ inside]; exact firstLeaves _ (getElem_mem inside))
    (climbs.trans same)
  rw [length_zip, length_partners, Nat.min_self, length] at tall
  exact tall

end Leaves

/-- The pairs that are combined one level up. -/
def pairs : List α → List (α × α)
  | [] => []
  | [last] => [(last, last)]
  | left :: right :: rest => (left, right) :: pairs rest

/-- The pairs that are combined when a level is folded a number of times. -/
def folded : ℕ → List α → List (α × α)
  | 0, _ => []
  | count + 1, level => pairs level ++ folded count (pairUp combine level)

/-- Folding two levels combines no two different pairs to the same value. -/
def NoCollision (first second : List α) : Prop :=
  ∀ here ∈ folded combine (Nat.clog 2 first.length) first,
    ∀ there ∈ folded combine (Nat.clog 2 second.length) second,
      combine here.1 here.2 = combine there.1 there.2 → here = there

/-- Without a collision among their pairs, levels of the same length that pair up to
the same level are equal. -/
theorem eq_of_pairUp_eq (sameLength : first.length = second.length)
    (noCollision : ∀ here ∈ pairs first, ∀ there ∈ pairs second,
      combine here.1 here.2 = combine there.1 there.2 → here = there)
    (same : pairUp combine first = pairUp combine second) : first = second := by
  induction first using pairUp.induct generalizing second with
  | case1 => exact (length_eq_zero_iff.mp sameLength.symm).symm
  | case2 last =>
    obtain ⟨other, rfl⟩ := length_eq_one_iff.mp sameLength.symm
    have equal := noCollision _ mem_cons_self _ mem_cons_self (List.cons.inj same).1
    rw [(Prod.mk.inj equal).1]
  | case3 left right rest ih =>
    match second, sameLength with
    | left' :: right' :: rest', sameLength =>
      obtain ⟨here, above⟩ := List.cons.inj same
      obtain ⟨rfl, rfl⟩ := Prod.mk.inj (noCollision _ mem_cons_self _ mem_cons_self here)
      rw [ih (by simpa using sameLength) (fun one member other member' =>
        noCollision one (mem_cons_of_mem _ member) other (mem_cons_of_mem _ member')) above]

/-- **Binding.** Without a collision, levels of the same length that fold to the same
value are equal. -/
theorem eq_of_top_eq (fallback : α) (sameLength : first.length = second.length)
    (noCollision : NoCollision combine first second)
    (same : top combine fallback first = top combine fallback second) : first = second := by
  unfold NoCollision at noCollision
  rw [← sameLength] at noCollision
  generalize tall : Nat.clog 2 first.length = count at noCollision
  induction count generalizing first second with
  | zero =>
    by_cases empty : first = []
    · subst empty
      exact (length_eq_zero_iff.mp sameLength.symm).symm
    · obtain ⟨value, rfl⟩ := eq_singleton_of_clog_zero empty tall
      obtain ⟨other, rfl⟩ := length_eq_one_iff.mp sameLength.symm
      exact congrArg ([·]) same
  | succ count ih =>
    have several := two_le_of_clog_succ tall
    have others : 2 ≤ second.length := sameLength ▸ several
    rw [top_pairUp combine fallback several, top_pairUp combine fallback others] at same
    refine eq_of_pairUp_eq combine sameLength (fun here member there member' =>
      noCollision here (mem_append_left _ member) there (mem_append_left _ member')) ?_
    refine ih (by rw [length_pairUp, length_pairUp, sameLength]) same
      (by rw [length_pairUp]; exact clog_half tall) fun here member there member' => ?_
    exact noCollision here (mem_append_right _ member) there (mem_append_right _ member')

end PairFold
