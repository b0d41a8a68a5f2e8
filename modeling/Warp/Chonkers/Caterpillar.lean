import Warp.Chonkers.Config
import Warp.Foundation.Boundaries

/-! # Caterpillar phase

A chunk with a period is found with the help of its Z-array, which holds the lengths of the longest
matches and takes a linear number of comparisons (`Caterpillar.z_array_linear`), and the chunks
after it that continue the pattern are collapsed into it. The phase only drops inner boundaries (`Caterpillar.coarsens_process`). A build
with overflow checks panics exactly if a product of a period length that it comes to does not fit a
word (`Caterpillar.process_checked`).
-/

namespace Warp.Chonkers.Caterpillar

open Boundaries Outcome List Machine

section
variable (data : Bytes)

/-- The variables of the Z-algorithm: the entries so far and the rightmost match. -/
structure ZState where
  z : List ℕ
  l : ℕ
  r : ℕ

def extend (i : ℕ) : ℕ → ℕ → ℕ
  | 0, length => length
  | fuel + 1, length =>
    if i + length < data.length ∧ data.getD length 0 = data.getD (i + length) 0 then
      extend i fuel (length + 1)
    else length

/-- The byte comparisons that extending a match takes. -/
def extendComparisons (i : ℕ) : ℕ → ℕ → ℕ
  | 0, _ => 0
  | fuel + 1, length =>
    if i + length < data.length then
      if data.getD length 0 = data.getD (i + length) 0 then
        extendComparisons i fuel (length + 1) + 1
      else 1
    else 0

/-- The part of a match that is copied from an entry before. -/
def ZState.known (state : ZState) (i : ℕ) : ℕ :=
  if i < state.r then min (state.z.getD (i - state.l) 0) (state.r - i) else 0

def zStep (state : ZState) (i : ℕ) : ZState :=
  let length := extend data i data.length (state.known i)
  let z := state.z ++ [length]
  if i + length > state.r then ⟨z, i, i + length⟩ else { state with z }

def computeZArray : List ℕ :=
  if data.length = 0 then []
  else ((List.range' 1 (data.length - 1)).foldl (zStep data) ⟨[data.length], 0, 0⟩).z

/-- A turn that also counts the comparisons of its inner loop. -/
def zStepCounted (counted : ZState × ℕ) (i : ℕ) : ZState × ℕ :=
  (zStep data counted.1 i,
    counted.2 + extendComparisons data i data.length (counted.1.known i))

/-- The byte comparisons in all turns of the Z-algorithm. -/
def zComparisons : ℕ :=
  ((List.range' 1 (data.length - 1)).foldl (zStepCounted data) (⟨[data.length], 0, 0⟩, 0)).2

end

structure PeriodInfo where
  periodLength : ℕ

variable (overflowChecks : Bool)

/-- Count the repetitions whose match with the front is long enough. -/
def countReps (z : List ℕ) (dataLen periodLen minReps : ℕ) : ℕ → ℕ → ℕ → ℕ
  | 0, _, reps => reps
  | fuel + 1, i, reps =>
    if i < z.length ∧ reps < minReps ∧ (z.getD i 0 ≥ periodLen ∨ i + z.getD i 0 ≥ dataLen) then
      countReps z dataLen periodLen minReps fuel (i + periodLen) (reps + 1)
    else reps

def hasPeriod (z : List ℕ) (dataLen periodLen minReps : ℕ) : Bool :=
  (periodLen < z.length ∧ z.getD periodLen 0 ≥ dataLen - periodLen) ∨
    countReps z dataLen periodLen minReps z.length periodLen 1 ≥ minReps

def isPeriodic (z : List ℕ) (dataLen periodLen minReps : ℕ) : Outcome Error Bool :=
  if periodLen = 0 then .ok false
  else (Machine.multiply overflowChecks periodLen minReps).bind fun needed =>
    .ok (¬ dataLen < needed ∧ hasPeriod z dataLen periodLen minReps)

def findPeriod (z : List ℕ) (dataLen minReps : ℕ) : List ℕ → Outcome Error (Option ℕ)
  | [] => .ok none
  | periodLen :: rest => do
      if ← isPeriodic overflowChecks z dataLen periodLen minReps then .ok (some periodLen)
      else findPeriod z dataLen minReps rest

def periodLengths (config : LayerConfig) (chunk : Bytes) : List ℕ :=
  List.range' config.minPeriodLength (chunk.length / 2 + 1 - config.minPeriodLength)

def detectPeriod (config : LayerConfig) (chunk : Bytes) : Outcome Error (Option PeriodInfo) :=
  if chunk.length < config.minPeriodLength then .ok none
  else do
    let found ← findPeriod overflowChecks (computeZArray chunk) chunk.length
      config.minRepetitions (periodLengths config chunk)
    .ok (found.map fun periodLength => ⟨periodLength⟩)

def continuesPattern (pattern chunk : Bytes) (periodLen : ℕ) : Bool :=
  ¬ chunk.length < periodLen / 2 ∧
    (chunk.take periodLen).zipIdx.all fun (byte, i) => byte = pattern.getD (i % pattern.length) 0

variable (data : Bytes) (config : LayerConfig)

/-- Find how many subsequent chunks continue the pattern: where they end, and the total
length, with the chunk that would exceed the maximum counted in. -/
def patternEnd (boundaries : List ℕ) (pattern : Bytes) (periodLen : ℕ) :
    ℕ → ℕ → ℕ → ℕ × ℕ
  | 0, endIdx, totalLen => (endIdx, totalLen)
  | fuel + 1, endIdx, totalLen =>
    if endIdx < boundaries.length - 1 then
      let chunk := Bytes.slice data (boundaries.getD endIdx 0)
        (min (boundaries.getD (endIdx + 1) 0) data.length)
      if continuesPattern pattern chunk periodLen then
        if totalLen + chunk.length > config.maxSize then (endIdx, totalLen + chunk.length)
        else patternEnd boundaries pattern periodLen fuel (endIdx + 1) (totalLen + chunk.length)
      else (endIdx, totalLen)
    else (endIdx, totalLen)

def collapseRepetitions (boundaries : List ℕ) (startIdx : ℕ) (info : PeriodInfo) :
    Outcome Error (List ℕ) :=
  if startIdx ≥ boundaries.length - 1 then .ok boundaries
  else
    let start := boundaries.getD startIdx 0
    let pattern := Bytes.slice data start (min (start + info.periodLength) data.length)
    let (endIdx, totalLen) := patternEnd data config boundaries pattern info.periodLength
      boundaries.length (startIdx + 1) (boundaries.getD (startIdx + 1) 0 - start)
    (Machine.multiply overflowChecks info.periodLength config.minRepetitions).bind fun needed =>
      if totalLen < needed then .ok boundaries
      else if endIdx > startIdx + 1 then
        .ok (boundaries.take (startIdx + 1) ++ boundaries.drop endIdx)
      else .ok boundaries

/-- The variables of the phase: the boundaries and the place that is looked at. -/
structure State where
  result : List ℕ
  i : ℕ

/-- The chunk that is looked at. -/
def State.chunk (state : State) : Bytes :=
  Bytes.slice data (state.result.getD state.i 0)
    (min (state.result.getD (state.i + 1) data.length) data.length)

/-- One turn: collapse at the place and look there again, or go on. -/
def turn (state : State) : Outcome Error State := do
  match ← detectPeriod overflowChecks config (state.chunk data) with
  | some info =>
    let collapsed ← collapseRepetitions overflowChecks data config state.result state.i info
    if collapsed.length < state.result.length then .ok { state with result := collapsed }
    else .ok { state with i := state.i + 1 }
  | none => .ok { state with i := state.i + 1 }

/-- The loop over the places. Every turn drops a boundary or goes on by one place. -/
def loop : ℕ → State → Outcome Error (List ℕ)
  | 0, state => .ok state.result
  | fuel + 1, state =>
    if state.i < state.result.length - 1 then
      (turn overflowChecks data config state).bind (loop fuel)
    else .ok state.result

def process (boundaries : List ℕ) : Outcome Error (List ℕ) :=
  if boundaries.length < 3 then .ok boundaries
  else (Machine.multiply overflowChecks config.minPeriodLength config.minRepetitions).bind
    fun needed =>
      if data.length < needed then .ok boundaries
      else loop overflowChecks data config boundaries.length ⟨boundaries, 0⟩

variable {overflowChecks data config} (boundaries : List ℕ) {state : State} {fuel : ℕ}
  {z periods : List ℕ} {dataLen minReps : ℕ} {chunk : Bytes}

section Coarsening
variable (data config) in
theorem patternEnd_bounds (pattern : Bytes) (periodLen fuel endIdx : ℕ)
    (inside : endIdx ≤ boundaries.length - 1) (totalLen : ℕ) :
    let found := (patternEnd data config boundaries pattern periodLen fuel endIdx totalLen).1
    endIdx ≤ found ∧ found ≤ boundaries.length - 1 := by
  induction fuel generalizing endIdx totalLen with
  | zero => exact ⟨le_rfl, inside⟩
  | succ fuel ih =>
    intro found
    simp only [found, patternEnd]
    split
    · next more =>
      split
      · split
        · exact ⟨le_rfl, inside⟩
        · obtain ⟨lower, upper⟩ := ih (endIdx + 1) (by omega)
            (totalLen + (Bytes.slice data (boundaries.getD endIdx 0)
              (min (boundaries.getD (endIdx + 1) 0) data.length)).length)
          exact ⟨(Nat.le_succ _).trans lower, upper⟩
      · exact ⟨le_rfl, inside⟩
    · exact ⟨le_rfl, inside⟩

variable {info : PeriodInfo} {next : State}

theorem coarsens_collapseRepetitions {boundaries collapsed : List ℕ} {startIdx : ℕ}
    (done : collapseRepetitions overflowChecks data config boundaries startIdx info = .ok collapsed)
    : Coarsens boundaries collapsed := by
  unfold collapseRepetitions at done
  split at done
  · exact Outcome.ok.inj done ▸ .refl _
  · next inside =>
    dsimp only at done
    obtain ⟨needed, -, done⟩ := bind_eq_ok_iff.mp done
    have bounds := patternEnd_bounds data config boundaries
      (Bytes.slice data (boundaries.getD startIdx 0)
        (min (boundaries.getD startIdx 0 + info.periodLength) data.length))
      info.periodLength boundaries.length (startIdx + 1) (by omega)
      (boundaries.getD (startIdx + 1) 0 - boundaries.getD startIdx 0)
    dsimp only at bounds
    split at done
    · exact Outcome.ok.inj done ▸ .refl _
    · split at done
      · rw [← Outcome.ok.inj done]
        exact coarsens_take_drop _ (Nat.succ_pos _) bounds.1 (by omega)
      · exact Outcome.ok.inj done ▸ .refl _

/-- A turn drops inner boundaries or goes on by one place. -/
theorem turn_eq_ok (done : turn overflowChecks data config state = .ok next) :
    Coarsens state.result next.result ∧
      (next.i = state.i + 1 ∧ next.result = state.result ∨
        next.i = state.i ∧ next.result.length < state.result.length) := by
  obtain ⟨found, -, done⟩ := bind_eq_ok_iff.mp done
  cases found with
  | none =>
    obtain rfl := Outcome.ok.inj done
    exact ⟨.refl _, .inl ⟨rfl, rfl⟩⟩
  | some info =>
    obtain ⟨collapsed, collapses, done⟩ := bind_eq_ok_iff.mp done
    split at done
    · next shorter =>
      obtain rfl := Outcome.ok.inj done
      exact ⟨coarsens_collapseRepetitions collapses, .inr ⟨rfl, shorter⟩⟩
    · obtain rfl := Outcome.ok.inj done
      exact ⟨.refl _, .inl ⟨rfl, rfl⟩⟩

theorem coarsens_loop {result : List ℕ}
    (done : loop overflowChecks data config fuel state = .ok result) :
    Coarsens state.result result := by
  induction fuel generalizing state with
  | zero => exact Outcome.ok.inj done ▸ .refl _
  | succ fuel ih =>
    unfold loop at done
    split at done
    · obtain ⟨next, turned, done⟩ := bind_eq_ok_iff.mp done
      exact (turn_eq_ok turned).1.trans (ih done)
    · exact Outcome.ok.inj done ▸ .refl _

theorem coarsens_process {boundaries result : List ℕ}
    (done : process overflowChecks data config boundaries = .ok result) :
    Coarsens boundaries result := by
  unfold process at done
  split at done
  · exact Outcome.ok.inj done ▸ .refl _
  · obtain ⟨needed, -, done⟩ := bind_eq_ok_iff.mp done
    split at done
    · exact Outcome.ok.inj done ▸ .refl _
    · exact coarsens_loop done

theorem findPeriod_eq_some {found : ℕ}
    (done : findPeriod overflowChecks z dataLen minReps periods = .ok (some found)) :
    found ∈ periods ∧ found ≠ 0 := by
  induction periods with
  | nil => simp [findPeriod] at done
  | cons periodLen rest ih =>
    obtain ⟨periodic, decided, done⟩ := bind_eq_ok_iff.mp done
    split at done
    · next yes =>
      obtain rfl : periodLen = found := by simpa using done
      refine ⟨mem_cons_self, ?_⟩
      rintro rfl
      rw [isPeriodic, if_pos rfl, Outcome.ok.injEq] at decided
      exact Bool.false_ne_true (decided.trans yes)
    · obtain ⟨member, positive⟩ := ih done
      exact ⟨mem_cons_of_mem _ member, positive⟩

theorem two_le_of_detectPeriod
    (detected : detectPeriod overflowChecks config chunk = .ok (some info)) : 2 ≤ chunk.length := by
  unfold detectPeriod at detected
  split at detected
  · simp at detected
  · obtain ⟨period, searched, shown⟩ := bind_eq_ok_iff.mp detected
    obtain ⟨periodLength, rfl, -⟩ := Option.map_eq_some_iff.mp (Outcome.ok.inj shown)
    obtain ⟨member, positive⟩ := findPeriod_eq_some searched
    have bounds := mem_range'_1.mp member
    omega

theorem length_slice_getD {boundaries : List ℕ} (partitions : Partitions data.length boundaries)
    {i : ℕ} (inside : i + 1 < boundaries.length) (fallback : ℕ) :
    (Bytes.slice data (boundaries.getD i 0)
      (min (boundaries.getD (i + 1) fallback) data.length)).length =
        boundaries.getD (i + 1) 0 - boundaries.getD i 0 := by
  have bound := (partitions.getD_bounds inside).2
  rw [getD_eq_getElem _ fallback inside, ← getD_eq_getElem _ 0 inside]
  simp only [Bytes.slice, length_take, length_drop]
  omega

variable (config) in
theorem patternEnd_size {boundaries : List ℕ} (partitions : Partitions data.length boundaries)
    (pattern : Bytes) (periodLen fuel : ℕ) {startIdx endIdx totalLen : ℕ}
    (after : startIdx ≤ endIdx) (total : totalLen = boundaries.getD endIdx 0 -
      boundaries.getD startIdx 0) :
    let found := (patternEnd data config boundaries pattern periodLen fuel endIdx totalLen).1
    found = endIdx ∨ boundaries.getD found 0 - boundaries.getD startIdx 0 ≤ config.maxSize := by
  induction fuel generalizing endIdx totalLen with
  | zero => exact .inl rfl
  | succ fuel ih =>
    intro found
    simp only [found, patternEnd]
    split
    · next more =>
      split
      · split
        · exact .inl rfl
        · next small =>
          have chunkLength := length_slice_getD partitions
            (show endIdx + 1 < boundaries.length by omega) 0
          have before := getD_add_le partitions.increasing after (by omega)
          have here := getD_add_le partitions.increasing
            (show endIdx ≤ endIdx + 1 by omega) (by omega)
          rw [chunkLength] at small ⊢
          have grown :
              totalLen + (boundaries.getD (endIdx + 1) 0 - boundaries.getD endIdx 0) =
              boundaries.getD (endIdx + 1) 0 - boundaries.getD startIdx 0 := by omega
          rcases ih (show startIdx ≤ endIdx + 1 by omega) grown with same | bounded
          · rw [same]
            exact .inr (by omega)
          · exact .inr bounded
      · exact .inl rfl
    · exact .inl rfl

/-- What a turn can do: go on by one place, or collapse a chunk of more than one byte with
the chunks after it up to the maximum. -/
theorem turn_cases (partitions : Partitions data.length state.result)
    (inside : state.i < state.result.length - 1)
    (done : turn overflowChecks data config state = .ok next) :
    next = ⟨state.result, state.i + 1⟩ ∨
      ∃ endIdx, state.i + 1 < endIdx ∧ endIdx < state.result.length ∧
        next = ⟨state.result.take (state.i + 1) ++ state.result.drop endIdx, state.i⟩ ∧
        2 ≤ state.result.getD (state.i + 1) 0 - state.result.getD state.i 0 ∧
        state.result.getD endIdx 0 - state.result.getD state.i 0 ≤ config.maxSize := by
  obtain ⟨found, detected, done⟩ := bind_eq_ok_iff.mp done
  cases found with
  | none => exact .inl (Outcome.ok.inj done).symm
  | some info =>
    obtain ⟨collapsed, collapses, done⟩ := bind_eq_ok_iff.mp done
    split at done
    · next shorter =>
      have large := two_le_of_detectPeriod detected
      rw [State.chunk, length_slice_getD partitions (by omega)] at large
      unfold collapseRepetitions at collapses
      rw [if_neg (by omega)] at collapses
      dsimp only at collapses
      obtain ⟨needed, -, collapses⟩ := bind_eq_ok_iff.mp collapses
      have bounds := patternEnd_bounds data config state.result
        (Bytes.slice data (state.result.getD state.i 0)
          (min (state.result.getD state.i 0 + info.periodLength) data.length))
        info.periodLength state.result.length (state.i + 1) (by omega)
        (state.result.getD (state.i + 1) 0 - state.result.getD state.i 0)
      have size := patternEnd_size config partitions
        (Bytes.slice data (state.result.getD state.i 0)
          (min (state.result.getD state.i 0 + info.periodLength) data.length))
        info.periodLength state.result.length (show state.i ≤ state.i + 1 by omega) rfl
      dsimp only at bounds size
      split at collapses
      · rw [Outcome.ok.inj collapses] at shorter
        omega
      · split at collapses
        · next further =>
          refine .inr ⟨_, further, by omega, ?_, large, ?_⟩
          · rw [← Outcome.ok.inj done, ← Outcome.ok.inj collapses]
          · exact size.resolve_left (by omega)
        · rw [Outcome.ok.inj collapses] at shorter
          omega
    · exact .inl (Outcome.ok.inj done).symm

end Coarsening

/-- Some period length is tried whose product with the required repetitions does not fit
a word. -/
inductive TriesOverflow (z : List ℕ) (dataLen minReps : ℕ) : List ℕ → Prop
  | here {periodLen : ℕ} {rest : List ℕ} (large : 2 ^ 64 ≤ periodLen * minReps) :
      TriesOverflow z dataLen minReps (periodLen :: rest)
  | later {periodLen : ℕ} {rest : List ℕ}
      (aperiodic : isPeriodic false z dataLen periodLen minReps = .ok false)
      (more : TriesOverflow z dataLen minReps rest) :
      TriesOverflow z dataLen minReps (periodLen :: rest)

theorem exists_isPeriodic_eq (z : List ℕ) (dataLen periodLen minReps : ℕ) :
    ∃ periodic, isPeriodic false z dataLen periodLen minReps = .ok periodic := by
  obtain ⟨needed, product⟩ := exists_multiply_eq Error periodLen minReps
  unfold isPeriodic
  split
  · exact ⟨_, rfl⟩
  · rw [product]
    exact ⟨_, rfl⟩

theorem exists_findPeriod_eq (z : List ℕ) (dataLen minReps : ℕ) (periods : List ℕ) :
    ∃ found, findPeriod false z dataLen minReps periods = .ok found := by
  induction periods with
  | nil => exact ⟨_, rfl⟩
  | cons periodLen rest ih =>
    obtain ⟨periodic, decided⟩ := exists_isPeriodic_eq z dataLen periodLen minReps
    rw [findPeriod, decided]
    cases periodic with
    | true => exact ⟨_, rfl⟩
    | false => exact ih

theorem isPeriodic_of_fits {periodLen : ℕ} (fits : periodLen * minReps < 2 ^ 64) :
    isPeriodic overflowChecks z dataLen periodLen minReps =
      isPeriodic false z dataLen periodLen minReps := by
  unfold isPeriodic
  rw [multiply_of_lt fits, multiply_of_lt fits]

variable (overflowChecks) in
/-- Both builds find the same period if no product overflows, and a period whose product
fits. -/
theorem findPeriod_of_fits (fits : ¬ TriesOverflow z dataLen minReps periods) :
    findPeriod overflowChecks z dataLen minReps periods =
        findPeriod false z dataLen minReps periods ∧
      ∀ found, findPeriod false z dataLen minReps periods = .ok (some found) →
        found * minReps < 2 ^ 64 := by
  induction periods with
  | nil => exact ⟨rfl, fun found absurd => by simp [findPeriod] at absurd⟩
  | cons periodLen rest ih =>
    have product : periodLen * minReps < 2 ^ 64 := by
      by_contra large
      exact fits (.here (Nat.le_of_not_lt large))
    obtain ⟨periodic, decided⟩ := exists_isPeriodic_eq z dataLen periodLen minReps
    rw [findPeriod, findPeriod, isPeriodic_of_fits product, decided]
    cases periodic with
    | true =>
      refine ⟨rfl, fun found same => ?_⟩
      obtain rfl : periodLen = found := by simpa using same
      exact product
    | false => exact ih fun more => fits (.later decided more)

theorem TriesOverflow.findPeriod_eq_panic (overflow : TriesOverflow z dataLen minReps periods) :
    findPeriod true z dataLen minReps periods = .panic := by
  have panics {periodLen : ℕ} (large : 2 ^ 64 ≤ periodLen * minReps) :
      isPeriodic true z dataLen periodLen minReps = .panic := by
    rw [isPeriodic, if_neg (by rintro rfl; simp at large), multiply_overflow large]
    rfl
  induction overflow with
  | here large =>
    rw [findPeriod, panics large]
    rfl
  | @later periodLen rest aperiodic more ih =>
    rw [findPeriod]
    rcases Nat.lt_or_ge (periodLen * minReps) (2 ^ 64) with fits | large
    · rw [isPeriodic_of_fits fits, aperiodic]
      exact ih
    · rw [panics large]
      rfl

variable (data config) in
/-- A period length is tried on the chunk that is looked at whose product does not fit. -/
def State.Overflows (state : State) : Prop :=
  TriesOverflow (computeZArray (state.chunk data)) (state.chunk data).length
    config.minRepetitions (periodLengths config (state.chunk data))

variable (data config) in
/-- A turn of the loop, in a build without overflow checks. -/
def Turns (state next : State) : Prop :=
  state.i < state.result.length - 1 ∧ turn false data config state = .ok next

variable (data config) in
/-- The phase multiplies numbers whose product does not fit a word. -/
def Overflows (boundaries : List ℕ) : Prop :=
  3 ≤ boundaries.length ∧
    (2 ^ 64 ≤ config.minPeriodLength * config.minRepetitions ∨
      config.minPeriodLength * config.minRepetitions ≤ data.length ∧
        ∃ state, Relation.ReflTransGen (Turns data config) ⟨boundaries, 0⟩ state ∧
          state.i < state.result.length - 1 ∧ state.Overflows data config)

theorem periodLengths_of_short (short : chunk.length < config.minPeriodLength) :
    periodLengths config chunk = [] := by
  rw [periodLengths, range'_eq_nil_iff]
  omega

variable (data config) in
theorem exists_turn_eq (state : State) : ∃ next, turn false data config state = .ok next := by
  have collapses (info : PeriodInfo) : ∃ collapsed,
      collapseRepetitions false data config state.result state.i info = .ok collapsed := by
    obtain ⟨needed, product⟩ := exists_multiply_eq Error info.periodLength config.minRepetitions
    unfold collapseRepetitions
    dsimp only
    rw [product, ok_bind]
    split
    · exact ⟨_, rfl⟩
    · split
      · exact ⟨_, rfl⟩
      · split
        · exact ⟨_, rfl⟩
        · exact ⟨_, rfl⟩
  have detects : ∃ found, detectPeriod false config (state.chunk data) = .ok found := by
    obtain ⟨found, searched⟩ := exists_findPeriod_eq (computeZArray (state.chunk data))
      (state.chunk data).length config.minRepetitions (periodLengths config (state.chunk data))
    unfold detectPeriod
    split
    · exact ⟨_, rfl⟩
    · rw [searched]
      exact ⟨_, rfl⟩
  obtain ⟨found, detected⟩ := detects
  rw [turn, detected]
  cases found with
  | none => exact ⟨_, rfl⟩
  | some info =>
    obtain ⟨collapsed, collapse⟩ := collapses info
    simp only [bind_eq, ok_bind, collapse]
    split
    · exact ⟨_, rfl⟩
    · exact ⟨_, rfl⟩

theorem turn_of_fits (fits : ¬ state.Overflows data config) :
    turn overflowChecks data config state = turn false data config state := by
  obtain ⟨same, product⟩ := findPeriod_of_fits overflowChecks fits
  have detects : detectPeriod overflowChecks config (state.chunk data) =
      detectPeriod false config (state.chunk data) := by
    rw [detectPeriod, detectPeriod, same]
  rw [turn, turn, detects]
  cases detected : detectPeriod false config (state.chunk data) with
  | ok found =>
    cases found with
    | none => rfl
    | some info =>
      have fitting : info.periodLength * config.minRepetitions < 2 ^ 64 := by
        unfold detectPeriod at detected
        split at detected
        · simp at detected
        · obtain ⟨period, searched, shown⟩ := bind_eq_ok_iff.mp detected
          obtain ⟨periodLength, rfl, rfl⟩ := Option.map_eq_some_iff.mp (Outcome.ok.inj shown)
          exact product periodLength searched
      simp only [bind_eq, ok_bind, collapseRepetitions, multiply_of_lt fitting]
  | error failure => rfl
  | panic => rfl

theorem State.Overflows.turn_eq_panic (overflow : state.Overflows data config) :
    turn true data config state = .panic := by
  have long : ¬ (state.chunk data).length < config.minPeriodLength := by
    intro short
    rw [State.Overflows, periodLengths_of_short short] at overflow
    cases overflow
  rw [turn, detectPeriod, if_neg long, overflow.findPeriod_eq_panic]
  rfl

theorem loop_of_fits
    (fits : ∀ reached, Relation.ReflTransGen (Turns data config) state reached →
      reached.i < reached.result.length - 1 → ¬ reached.Overflows data config) :
    loop overflowChecks data config fuel state = loop false data config fuel state := by
  induction fuel generalizing state with
  | zero => rfl
  | succ fuel ih =>
    unfold loop
    split
    · next inside =>
      obtain ⟨next, turned⟩ := exists_turn_eq data config state
      rw [turn_of_fits (fits state .refl inside), turned]
      exact ih fun reached visits => fits reached (.head ⟨inside, turned⟩ visits)
    · rfl

/-- The loop comes to every state it can reach: a turn brings it closer to its end. -/
theorem loop_eq_panic {reached : State} (enough : state.result.length - state.i ≤ fuel)
    (visits : Relation.ReflTransGen (Turns data config) state reached)
    (inside : reached.i < reached.result.length - 1) (overflow : reached.Overflows data config) :
    loop true data config fuel state = .panic := by
  induction fuel generalizing state with
  | zero =>
    rcases visits.cases_head with rfl | ⟨next, ⟨more, -⟩, -⟩
    · omega
    · omega
  | succ fuel ih =>
    rcases visits.cases_head with rfl | ⟨next, ⟨more, turned⟩, onward⟩
    · rw [loop, if_pos inside, overflow.turn_eq_panic]
      rfl
    · rw [loop, if_pos more]
      by_cases here : state.Overflows data config
      · rw [here.turn_eq_panic]
        rfl
      · rw [turn_of_fits here, turned]
        apply ih _ onward
        rcases (turn_eq_ok turned).2 with ⟨place, same⟩ | ⟨place, shorter⟩
        · rw [place, same]
          omega
        · omega

variable (data config) in
theorem exists_loop_eq (fuel : ℕ) (state : State) :
    ∃ result, loop false data config fuel state = .ok result := by
  induction fuel generalizing state with
  | zero => exact ⟨_, rfl⟩
  | succ fuel ih =>
    unfold loop
    split
    · obtain ⟨next, turned⟩ := exists_turn_eq data config state
      rw [turned]
      exact ih next
    · exact ⟨_, rfl⟩

variable (data config) in
theorem exists_process_eq :
    ∃ result, process false data config boundaries = .ok result := by
  obtain ⟨needed, product⟩ := exists_multiply_eq Error config.minPeriodLength config.minRepetitions
  unfold process
  rw [product]
  split
  · exact ⟨_, rfl⟩
  · rw [ok_bind]
    split
    · exact ⟨_, rfl⟩
    · exact exists_loop_eq data config _ _

/-- **Overflow.** With overflow checks the phase panics if a product overflows, and
otherwise returns what it returns without them. -/
theorem process_checked :
    (Overflows data config boundaries → process true data config boundaries = .panic) ∧
      (¬ Overflows data config boundaries →
        process true data config boundaries = process false data config boundaries) := by
  unfold process
  by_cases few : boundaries.length < 3
  · rw [if_pos few, if_pos few]
    exact ⟨fun overflow => absurd overflow.1 (Nat.not_le.mpr few), fun _ => rfl⟩
  rw [if_neg few, if_neg few]
  rcases Nat.lt_or_ge (config.minPeriodLength * config.minRepetitions) (2 ^ 64) with fits | large
  · rw [multiply_of_lt fits, multiply_of_lt fits, ok_bind, ok_bind]
    by_cases short : data.length < config.minPeriodLength * config.minRepetitions
    · rw [if_pos short, if_pos short]
      refine ⟨?_, fun _ => rfl⟩
      rintro ⟨-, large | ⟨long, -⟩⟩
      · omega
      · omega
    · rw [if_neg short, if_neg short]
      constructor
      · rintro ⟨-, large | ⟨-, reached, visits, inside, overflow⟩⟩
        · omega
        · exact loop_eq_panic (Nat.sub_le _ _) visits inside overflow
      · intro fine
        apply loop_of_fits
        intro reached visits inside overflow
        exact fine ⟨by omega, .inr ⟨by omega, reached, visits, inside, overflow⟩⟩
  · rw [multiply_overflow large]
    refine ⟨fun _ => rfl, fun fine => absurd ⟨by omega, .inl large⟩ fine⟩

theorem process_ne_error (failure : Error) :
    process overflowChecks data config boundaries ≠ .error failure := by
  obtain ⟨result, released⟩ := exists_process_eq data config boundaries
  cases overflowChecks with
  | false => simp [released]
  | true =>
    by_cases overflow : Overflows data config boundaries
    · simp [(process_checked boundaries).1 overflow]
    · simp [(process_checked boundaries).2 overflow, released]

section ZArray

section
variable (data : Bytes)

/-- The front of the data, of a length, is found again at a position. -/
def MatchesFront (i length : ℕ) : Prop :=
  i + length ≤ data.length ∧ ∀ j < length, data.getD j 0 = data.getD (i + j) 0

/-- The length of the longest match at a position. -/
def Longest (i length : ℕ) : Prop := ∀ k, k ≤ length ↔ MatchesFront data i k

/-- Before the turn of a position the entries are right and the window is a match. -/
structure ZSound (i : ℕ) (state : ZState) : Prop where
  size : state.z.length = i
  front : state.z.getD 0 0 = data.length
  longest : ∀ j, 0 < j → j < i → Longest data j (state.z.getD j 0)
  window : i < state.r → 0 < state.l ∧ state.l < i ∧ MatchesFront data state.l (state.r - state.l)

end

variable {data : Bytes} {i length : ℕ} {state : ZState}

theorem MatchesFront.succ (matched : MatchesFront data i length)
    (more : i + length < data.length ∧ data.getD length 0 = data.getD (i + length) 0) :
    MatchesFront data i (length + 1) := by
  refine ⟨more.1, fun j below => ?_⟩
  rcases Nat.lt_succ_iff_lt_or_eq.mp below with earlier | rfl
  · exact matched.2 j earlier
  · exact more.2

theorem MatchesFront.longest (matched : MatchesFront data i length)
    (stops : ¬ (i + length < data.length ∧ data.getD length 0 = data.getD (i + length) 0)) :
    Longest data i length := by
  obtain ⟨inside, same⟩ := matched
  intro k
  refine ⟨fun shorter => ⟨by omega, fun j below => same j (by omega)⟩, fun longer => ?_⟩
  by_contra more
  exact stops ⟨by have := longer.1; omega, longer.2 length (by omega)⟩

theorem longest_extend (fuel : ℕ) (enough : data.length ≤ i + length + fuel)
    (matched : MatchesFront data i length) : Longest data i (extend data i fuel length) := by
  induction fuel generalizing length with
  | zero => exact matched.longest fun more => by omega
  | succ fuel ih =>
    unfold extend
    split_ifs with more
    · exact ih (by omega) (matched.succ more)
    · exact matched.longest more

theorem ZSound.matchesFront_known (sound : ZSound data i state) (inData : i < data.length) :
    MatchesFront data i (state.known i) := by
  unfold ZState.known
  split_ifs with inWindow
  · obtain ⟨positive, before, inside, window⟩ := sound.window inWindow
    obtain ⟨-, earlier⟩ := (sound.longest (i - state.l) (Nat.sub_pos_of_lt before)
      (Nat.sub_lt_self positive before.le) _).mp le_rfl
    refine ⟨by omega, fun j below => (earlier j (by omega)).trans ?_⟩
    -- the window repeats the front, so a position in it looks like one nearer to the front
    have same := window (i - state.l + j) (by omega)
    rwa [← Nat.add_assoc, Nat.add_sub_cancel' before.le] at same
  · exact ⟨by omega, nofun⟩

theorem ZSound.step (sound : ZSound data i state) (positive : 0 < i) (inData : i < data.length) :
    ZSound data (i + 1) (zStep data state i) := by
  have longest := longest_extend data.length (by omega) (sound.matchesFront_known inData)
  unfold zStep
  dsimp only
  generalize extend data i data.length _ = length at *
  obtain ⟨size, front, entries, window⟩ := sound
  have kept : (state.z ++ [length]).getD 0 0 = data.length := by
    rw [getD_append _ _ _ _ (size ▸ positive), front]
  have grown : (state.z ++ [length]).length = i + 1 := by
    rw [length_append, size, length_singleton]
  have all : ∀ j, 0 < j → j < i + 1 → Longest data j ((state.z ++ [length]).getD j 0) := by
    intro j after before
    rcases Nat.lt_succ_iff_lt_or_eq.mp before with earlier | rfl
    · rw [getD_append _ _ _ _ (size ▸ earlier)]
      exact entries j after earlier
    · rw [getD_append_right _ _ _ _ size.le, size, Nat.sub_self]
      exact longest
  split_ifs with further
  · refine ⟨grown, kept, all, fun _ => ⟨positive, Nat.lt_succ_self i, ?_⟩⟩
    rw [Nat.add_sub_cancel_left]
    exact (longest length).mp le_rfl
  · refine ⟨grown, kept, all, fun inWindow => ?_⟩
    obtain ⟨left, before, window⟩ := window (Nat.lt_of_succ_lt inWindow)
    exact ⟨left, Nat.lt_succ_of_lt before, window⟩

theorem zSound_foldl (turns : ℕ) (within : turns < data.length) :
    ZSound data (turns + 1) ((range' 1 turns).foldl (zStep data) ⟨[data.length], 0, 0⟩) := by
  induction turns with
  | zero => exact ⟨rfl, rfl, fun _ _ _ => by omega, nofun⟩
  | succ turns ih =>
    rw [range'_1_concat, foldl_append, Nat.add_comm 1 turns]
    exact (ih (by omega)).step (Nat.succ_pos _) within

variable (data) in
/-- Extending compares once for every byte it adds, and once more where it ends. -/
theorem extendComparisons_le (fuel i length : ℕ) :
    extendComparisons data i fuel length + length ≤ extend data i fuel length + 1 := by
  induction fuel generalizing length with
  | zero => exact (Nat.zero_add length).le.trans (Nat.le_succ length)
  | succ fuel ih =>
    have later := ih (length + 1)
    unfold extendComparisons extend
    by_cases inside : i + length < data.length
    · by_cases same : data.getD length 0 = data.getD (i + length) 0
      · rw [if_pos inside, if_pos same, if_pos ⟨inside, same⟩]
        omega
      · rw [if_pos inside, if_neg same, if_neg fun more => same more.2, Nat.add_comm]
    · rw [if_neg inside, if_neg fun more => inside more.1]
      omega

/-- A copied match that ends before the window is not extended: the byte after it differs in the
window as it did at the front. -/
theorem ZSound.known_eq_or_le (sound : ZSound data i state) (longest : Longest data i length)
    (longer : state.known i ≤ length) : length = state.known i ∨ state.r ≤ i + state.known i := by
  by_contra neither
  obtain ⟨extended, inside⟩ := not_or.mp neither
  unfold ZState.known at extended inside longer
  split_ifs at extended inside longer with inWindow
  · obtain ⟨positive, before, within, window⟩ := sound.window inWindow
    have earlier := sound.longest (i - state.l) (Nat.sub_pos_of_lt before)
      (Nat.sub_lt_self positive before.le)
    obtain ⟨-, here⟩ := (longest (state.z.getD (i - state.l) 0 + 1)).mp (by omega)
    have more : MatchesFront data (i - state.l) (state.z.getD (i - state.l) 0 + 1) := by
      refine ⟨by omega, fun j below => (here j below).trans ?_⟩
      have same := window (i - state.l + j) (by omega)
      rw [← Nat.add_assoc, Nat.add_sub_cancel' before.le] at same
      exact same.symm
    exact absurd ((earlier _).mpr more) (Nat.not_succ_le_self _)
  · omega

/-- Every comparison but the last one of its turn moves the end of the window. -/
theorem ZSound.comparisons_step (sound : ZSound data i state) (inData : i < data.length) :
    extendComparisons data i data.length (state.known i) + state.r ≤ (zStep data state i).r + 1 ∧
      (state.r ≤ data.length → (zStep data state i).r ≤ data.length) := by
  have longest := longest_extend data.length (by omega) (sound.matchesFront_known inData)
  have cost := extendComparisons_le data data.length i (state.known i)
  have longer := (longest (state.known i)).mpr (sound.matchesFront_known inData)
  have reach := sound.known_eq_or_le longest longer
  have fits := ((longest _).mp le_rfl).1
  unfold zStep
  dsimp only
  split_ifs with further
  · exact ⟨by dsimp only; omega, fun _ => fits⟩
  · exact ⟨by dsimp only; omega, id⟩

theorem zComparisons_foldl (turns : ℕ) (within : turns < data.length) :
    let counted := (range' 1 turns).foldl (zStepCounted data) (⟨[data.length], 0, 0⟩, 0)
    counted.1 = (range' 1 turns).foldl (zStep data) ⟨[data.length], 0, 0⟩ ∧
      counted.2 ≤ counted.1.r + turns ∧ counted.1.r ≤ data.length := by
  induction turns with
  | zero => exact ⟨rfl, le_rfl, Nat.zero_le _⟩
  | succ turns ih =>
    obtain ⟨same, few, inside⟩ := ih (by omega)
    have sound : ZSound data (turns + 1) _ := zSound_foldl turns (by omega)
    rw [← same] at sound
    obtain ⟨cost, fits⟩ := sound.comparisons_step within
    rw [range'_1_concat, foldl_append, foldl_append, Nat.add_comm 1 turns]
    refine ⟨congrArg (zStep data · (turns + 1)) same, ?_, fits inside⟩
    simp only [foldl_cons, foldl_nil, zStepCounted]
    omega

/-- **The Z-array is right and linear.** It has an entry for each byte; the first entry is the
length of the data, and every other entry is the length of the longest beginning of the data that
is found there. All turns together compare at most twice as many bytes as there are. -/
theorem z_array_linear (data : Bytes) :
    (computeZArray data).length = data.length ∧ (computeZArray data).getD 0 0 = data.length ∧
      (∀ i, 0 < i → i < data.length → Longest data i ((computeZArray data).getD i 0)) ∧
      zComparisons data ≤ 2 * data.length := by
  unfold computeZArray
  split_ifs with empty
  · have none_ : zComparisons data = 0 := by rw [zComparisons, empty]; rfl
    exact ⟨empty.symm, empty.symm, fun i _ inside => by omega, by omega⟩
  · have positive := Nat.pos_of_ne_zero empty
    have sound := zSound_foldl (data.length - 1) (Nat.sub_one_lt empty)
    rw [Nat.sub_add_cancel positive] at sound
    obtain ⟨-, few, inside⟩ := zComparisons_foldl (data.length - 1) (Nat.sub_one_lt empty)
    refine ⟨sound.size, sound.front, sound.longest, ?_⟩
    unfold zComparisons
    omega

end ZArray

end Warp.Chonkers.Caterpillar
