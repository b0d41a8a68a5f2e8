import Mathlib.Data.Fintype.Card
import Mathlib.Data.List.Chain
import Warp.Io.SimdCuts

/-! # Which bytes vectorised chunking keeps

The ranges of the scalar and of the NEON loop tile every buffer. Those of the AVX2 loop do exactly
if no chunk ends at a run that only its scalar fallback notices, whose range stops one byte short.
With overflow checks the loop also panics on runs of 33 bytes, whose mask does not fit a word
(`Simd.simd_chunking_keeps_bytes_iff`).
-/

namespace Warp.Io.Simd

open Cutting List Avx2 Bytes Nat

variable (config : SeqCdcConfig) (data : Bytes) (overflowChecks : Bool)

/-- The chunk of an entry ends at a run the vector search does not report. -/
def LosesByte (entry : Entry) : Prop :=
  ∃ i, entry.first ≤ i ∧ i < data.length ∧
    (∀ j, entry.first ≤ j → j < i → avx2Rule config data entry j = none) ∧
    config.minSize ≤ i - entry.start ∧ config.seqLength ≤ data.length - i ∧
    vectorBoundary config data i = none ∧ Avx2.isBoundary config data i = true

/-- The mask pattern of a run overflows in a build that checks for it. -/
def PatternOverflows : Prop :=
  overflowChecks = true ∧ config.seqLength = 33 ∧ config.minSize + 33 ≤ data.length

/-- The AVX2 loop keeps every byte of the buffer. -/
def Avx2Keeps : Prop :=
  ¬ PatternOverflows config data overflowChecks ∧
    ∀ entry, Visits (avx2Rule config data) data.length ⟨0, 0⟩ entry → ¬ LosesByte config data entry

variable {config data overflowChecks}

section
variable (sensible : Sensible config)
include sensible

theorem scalarRule_advances : Advances (scalarRule config data) data.length := by
  intro entry cut cuts
  obtain ⟨positive, next, bounded⟩ := countingRule_advances sensible Entry.first data.length cuts
  exact ⟨positive, next.ge, bounded⟩

theorem neonRule_advances : Advances (neonRule config data) data.length := by
  intro entry cut cuts
  obtain ⟨positive, next, bounded⟩ :=
    countingRule_advances sensible (neonOrigin config) data.length cuts
  exact ⟨positive, next.ge, bounded⟩

theorem tiles_chunkBufferScalar : Tiles 0 data.length (chunkBufferScalar config data) := by
  apply ((chunkBufferScalar_chain config data).tiles_iff (scalarRule_advances sensible)
    (zero_le _)).mpr
  intro reached _ cut cuts
  exact (countingRule_advances sensible Entry.first data.length cuts).2.1

theorem tiles_chunkBufferNeon : Tiles 0 data.length (Neon.chunkBufferNeon config data) := by
  apply ((chunkBufferNeon_chain data sensible).tiles_iff (neonRule_advances sensible)
    (zero_le _)).mpr
  intro reached _ cut cuts
  exact (countingRule_advances sensible (neonOrigin config) data.length cuts).2.1

/-- A cut of the AVX2 loop leaves out a byte exactly at a run the vector search does not
report. -/
theorem losesByte_iff (entry : Entry) :
    LosesByte config data entry ↔
      ∃ cut, nextCut (avx2Rule config data) data.length entry = some cut ∧
        cut.next.start ≠ entry.start + cut.length := by
  have minimum := sensible.minSize
  have sequence := sensible.seqLength
  constructor
  · rintro ⟨i, after, inside, quiet, large, room, silent, run⟩
    have cuts : avx2Rule config data entry i =
        some ⟨i + config.seqLength - 1 - entry.start,
          ⟨i + config.seqLength, i + config.seqLength⟩⟩ := by
      rw [avx2Rule, if_pos ⟨large, room⟩, silent]
      exact if_pos run
    refine ⟨_, nextCut_eq_some_iff.mpr ⟨i, after, inside, cuts, quiet⟩, ?_⟩
    dsimp only
    omega
  · rintro ⟨cut, cuts, gap⟩
    obtain ⟨i, after, inside, at_, quiet⟩ := nextCut_eq_some_iff.mp cuts
    rcases avx2Rule_eq_some at_ with ⟨offset, -, large, rfl⟩ | ⟨silent, run, large, room, rfl⟩ |
      ⟨full, rfl⟩
    · dsimp only at gap
      omega
    · exact ⟨i, after, inside, quiet, large, room, silent, run⟩
    · have maximum := sensible.maxSize
      dsimp only at gap
      omega

end

/-- With overflow checks the search panics only on the mask pattern of 33 bytes. -/
theorem searchWindow_checked (i : ℕ) :
    searchWindow config data true i =
      if config.seqLength = 33 ∧ data.length - i ≥ 33 then .panic
      else searchWindow config data false i := by
  unfold searchWindow findBoundaryInWindow findConsecutiveOnes
  by_cases long : data.length - i ≥ 33
  · rw [if_pos long, if_pos long, length_drop, if_neg (not_lt.mpr long),
      if_neg (not_lt.mpr long)]
    by_cases none_ : config.seqLength - 1 = 0
    · rw [if_pos none_, if_pos none_, if_neg (by omega)]
    by_cases wide : config.seqLength - 1 > 32
    · rw [if_neg none_, if_neg none_, if_pos wide, if_pos wide, if_neg (by omega)]
    rw [if_neg none_, if_neg none_, if_neg wide, if_neg wide]
    by_cases pattern : config.seqLength = 33
    · rw [if_pos ⟨pattern, long⟩, pattern]
      rfl
    · have narrow : config.seqLength - 1 < 32 := by omega
      rw [if_neg fun absurd => pattern absurd.1, Machine.shiftLeft, Machine.shiftLeft,
        if_pos narrow, if_pos narrow]
  · rw [if_neg long, if_neg long, if_neg fun absurd => long absurd.2]

theorem turn_checked (fits : ¬ PatternOverflows config data true) (state : Avx2.State) :
    turn config data true state = turn config data false state := by
  have same : detectBoundary config data true state =
      detectBoundary config data false state := by
    unfold detectBoundary
    dsimp only
    split
    · next near =>
      rw [searchWindow_checked, if_neg]
      rintro ⟨pattern, long⟩
      exact fits ⟨rfl, pattern, by omega⟩
    · rfl
  rw [turn, turn, same]

theorem chunkBufferAvx2_checked (fits : ¬ PatternOverflows config data overflowChecks) :
    chunkBufferAvx2 config data overflowChecks = chunkBufferAvx2 config data false := by
  cases overflowChecks with
  | false => rfl
  | true =>
    have sameTurn : turn config data true = turn config data false :=
      funext (turn_checked fits)
    have sameLoop (fuel : ℕ) (state : Avx2.State) :
        loop config data true fuel state = loop config data false fuel state := by
      induction fuel generalizing state with
      | zero => rfl
      | succ fuel ih => rw [loop, loop, sameTurn, funext ih]
    rw [chunkBufferAvx2, chunkBufferAvx2, sameLoop]

/-- The loop reaches the first position after the minimum size, and panics there. -/
theorem loop_panics (sensible : Sensible config) (overflows : PatternOverflows config data true)
    (fuel i : ℕ) (before : i ≤ config.minSize) (enough : config.minSize - i < fuel) :
    loop config data true fuel ⟨[], 0, i⟩ = .panic := by
  obtain ⟨-, pattern, long⟩ := overflows
  have maximum := sensible.maxSize
  induction fuel generalizing i with
  | zero => omega
  | succ fuel ih =>
    rw [loop, if_pos (by dsimp only; omega), turn]
    dsimp only
    split
    · next skips => exact ih (i + 32) (by omega) (by omega)
    · unfold detectBoundary
      dsimp only
      by_cases short : i < config.minSize
      · rw [if_neg (by omega)]
        simp only [Outcome.bind_eq, Outcome.ok_bind, enforceMaximum]
        rw [if_neg (by omega)]
        exact ih (i + 1) (by omega) (by omega)
      · rw [if_pos ⟨by omega, by omega⟩, searchWindow_checked, if_pos ⟨pattern, by omega⟩]
        rfl

theorem chunkBufferAvx2_panics (sensible : Sensible config)
    (overflows : PatternOverflows config data overflowChecks) :
    chunkBufferAvx2 config data overflowChecks = .panic := by
  obtain rfl : overflowChecks = true := overflows.1
  have long := overflows.2.2
  rw [chunkBufferAvx2, loop_panics sensible overflows _ _ (zero_le _) (by omega)]
  rfl

theorem tiles_chunkBufferAvx2_iff (sensible : Sensible config) :
    (∃ ranges, chunkBufferAvx2 config data overflowChecks = .ok ranges ∧
      Tiles 0 data.length ranges) ↔ Avx2Keeps config data overflowChecks := by
  by_cases overflows : PatternOverflows config data overflowChecks
  · rw [chunkBufferAvx2_panics sensible overflows]
    simp [Avx2Keeps, overflows]
  · obtain ⟨ranges, ok, chain⟩ := chunkBufferAvx2_chain data sensible
    have tiles := chain.tiles_iff (avx2Rule_advances sensible) (zero_le _)
    simp only [chunkBufferAvx2_checked overflows, ok, Outcome.ok.injEq, exists_eq_left',
      Avx2Keeps, overflows, not_false_eq_true, true_and]
    rw [show Tiles 0 data.length ranges ↔ _ from tiles]
    simp [losesByte_iff sensible]

/-- The chunks of ranges inside the buffer give back the buffer exactly if the ranges
tile it. -/
theorem flatten_chunks_iff {event : Entry → ℕ → Option Cut} (advances : Advances event data.length)
    {entry : Entry} (atStart : entry.start = 0) {ranges : List (ℕ × ℕ)}
    (chain : Chain event data.length entry ranges) :
    ∃ chunks, Outcome.forEach (sliceRange data) ranges = .ok chunks ∧
      (chunks.flatten = data ↔ Tiles 0 data.length ranges) := by
  have inside := chain.range_le advances
  refine ⟨ranges.map fun range => slice data range.1 (range.1 + range.2), ?_, ?_, ?_⟩
  · apply (Outcome.forEach_eq_ok_iff ..).mpr
    rw [forall₂_map_right_iff, forall₂_same]
    intro range member
    exact if_pos (inside range member)
  · intro whole
    have total : covered ranges = data.length := by
      rw [← congrArg List.length whole, length_flatten, map_map, covered]
      congr 1
      apply map_congr_left
      intro range member
      have bound := inside range member
      simp only [Function.comp_apply, slice, length_take, length_drop]
      omega
    rw [← atStart]
    apply (chain.tiles_of_covered advances (by omega)).2
    rw [atStart, total, zero_add]
  · intro tiles
    rw [tiles.flatten_slices data le_rfl]
    simp [slice]

/-- Chunking gives back the buffer, except where the AVX2 loop runs and loses bytes. -/
theorem flatten_chunkBuffer_iff (sensible : Sensible config) (processor : Processor) :
    (∃ chunks, chunkBuffer config data overflowChecks processor = .ok chunks ∧
      chunks.flatten = data) ↔
      (processor = .x86 true → Avx2Keeps config data overflowChecks) := by
  have start : data.isEmpty = false → ∀ ranges,
      chunkBufferAuto config data overflowChecks processor = .ok ranges →
        chunkBuffer config data overflowChecks processor =
          Outcome.forEach (sliceRange data) ranges := by
    intro some_ ranges ok
    rw [chunkBuffer, some_, ok]
    rfl
  by_cases empty : data = []
  · subst empty
    refine iff_of_true ⟨[], rfl, rfl⟩ fun _ => ⟨?_, ?_⟩
    · rintro ⟨-, -, long⟩
      simp at long
    · rintro entry - ⟨i, -, inside, -⟩
      exact not_lt_zero i inside
  have nonempty : data.isEmpty = false := by simpa using empty
  have scalar : ∃ chunks, Outcome.forEach (sliceRange data) (chunkBufferScalar config data) =
      .ok chunks ∧ chunks.flatten = data := by
    obtain ⟨chunks, ok, whole⟩ := flatten_chunks_iff (scalarRule_advances sensible) rfl
      (chunkBufferScalar_chain config data)
    exact ⟨chunks, ok, whole.mpr (tiles_chunkBufferScalar sensible)⟩
  cases processor with
  | x86 avx2 =>
    cases avx2 with
    | false =>
      rw [start nonempty _ rfl]
      exact iff_of_true scalar (by simp)
    | true =>
      simp only [forall_const]
      rw [← tiles_chunkBufferAvx2_iff sensible]
      by_cases overflows : PatternOverflows config data overflowChecks
      · have panics := chunkBufferAvx2_panics sensible overflows
        rw [panics, chunkBuffer, nonempty, chunkBufferAuto, panics]
        simp
      · obtain ⟨ranges, ok, chain⟩ := chunkBufferAvx2_chain data sensible
        rw [← chunkBufferAvx2_checked overflows] at ok
        obtain ⟨chunks, sliced, whole⟩ := flatten_chunks_iff (avx2Rule_advances sensible) rfl chain
        rw [start nonempty ranges ok, sliced, ok]
        simpa using whole
  | aarch64 =>
    obtain ⟨chunks, ok, whole⟩ := flatten_chunks_iff (neonRule_advances sensible) rfl
      (chunkBufferNeon_chain data sensible)
    rw [start nonempty _ rfl]
    exact iff_of_true ⟨chunks, ok, whole.mpr (tiles_chunkBufferNeon sensible)⟩ (by simp)
  | other =>
    rw [start nonempty _ rfl]
    exact iff_of_true scalar (by simp)

section Configurations
variable {mode : SeqMode} {i : ℕ}

theorem isMonotonic_trans {a b c : UInt8} (first : isMonotonic mode a b = true)
    (second : isMonotonic mode b c = true) : isMonotonic mode a c = true := by
  cases mode with
  | increasing =>
    simp only [isMonotonic, decide_eq_true_eq] at first second ⊢
    exact UInt8.lt_trans first second
  | decreasing =>
    simp only [isMonotonic, decide_eq_true_eq] at first second ⊢
    exact UInt8.lt_trans second first

theorem isMonotonic_ne {a b : UInt8} (monotonic : isMonotonic mode a b = true) :
    a ≠ b := by
  rintro rfl
  cases mode <;> simp [isMonotonic] at monotonic

theorem isChain_of_zip_tail {relation : UInt8 → UInt8 → Bool} (window : Bytes)
    (related : ((window.zip window.tail).all fun (prev, curr) => relation prev curr) = true) :
    window.IsChain fun prev curr => relation prev curr = true := by
  induction window with
  | nil => exact .nil
  | cons first rest ih =>
    cases rest with
    | nil => exact .singleton first
    | cons second rest =>
      rw [tail_cons, zip_cons_cons, all_cons, Bool.and_eq_true] at related
      exact .cons_cons related.1 (ih related.2)

/-- A run has no byte twice, so it has at most 256 bytes. -/
theorem seqLength_le_of_isBoundary (run : isBoundary config data i = true) :
    config.seqLength ≤ 256 := by
  unfold isBoundary at run
  dsimp only at run
  split at run
  · next room =>
    have : Trans (fun a b => isMonotonic config.mode a b = true)
        (fun a b => isMonotonic config.mode a b = true)
        (fun a b => isMonotonic config.mode a b = true) := ⟨isMonotonic_trans⟩
    have distinct : (slice data i (min (i + config.seqLength) data.length)).Nodup :=
      (isChain_of_zip_tail _ run).pairwise.imp isMonotonic_ne
    have few := (distinct.map fun _ _ same => UInt8.toFin_inj.mp same).length_le_card
    rw [length_map, slice, length_take, length_drop, Fintype.card_fin] at few
    have size : UInt8.size = 256 := rfl
    omega
  · contradiction

/-- The vector search reports nothing near the end of the buffer, or for long runs. -/
theorem vectorBoundary_eq_none (quiet : data.length - i < 33 ∨ 33 < config.seqLength) :
    vectorBoundary config data i = none := by
  unfold vectorBoundary searchWindow
  by_cases long : data.length - i ≥ 33
  · rw [if_pos long, findBoundaryInWindow, if_neg (by rw [length_drop]; omega),
      findConsecutiveOnes, if_neg (by omega), if_pos (by omega)]
  · rw [if_neg long]

/-- Without overflow checks the pattern of 33 bytes wraps around to the empty one, which
matches everywhere. -/
theorem vectorBoundary_wrapped (pattern : config.seqLength = 33) (long : data.length - i ≥ 33) :
    vectorBoundary config data i = some 31 := by
  have shift : (Machine.shiftLeft false (1 : BitVec 32) 32 : Panicking (BitVec 32)) = .ok 1 := rfl
  unfold vectorBoundary searchWindow findBoundaryInWindow findConsecutiveOnes
  rw [if_pos long, if_neg (by rw [length_drop]; omega), pattern, if_neg (by omega),
    if_neg (by omega), shift]
  simp

def runByte (mode : SeqMode) (place : ℕ) : UInt8 :=
  match mode with
  | .increasing => UInt8.ofNat place
  | .decreasing => UInt8.ofNat (255 - place)

/-- A buffer that ends with a run once the first chunk has its minimum size. -/
def lossyBuffer (config : SeqCdcConfig) : Bytes :=
  List.replicate config.minSize 0 ++ (List.range config.seqLength).map (runByte config.mode)

theorem isMonotonic_runByte (mode : SeqMode) {place : ℕ} (small : place + 1 < 256) :
    isMonotonic mode (runByte mode place) (runByte mode (place + 1)) = true := by
  cases mode with
  | increasing =>
    simp only [isMonotonic, runByte, decide_eq_true_eq, UInt8.lt_iff_toNat_lt, UInt8.toNat_ofNat']
    omega
  | decreasing =>
    simp only [isMonotonic, runByte, decide_eq_true_eq, GT.gt, UInt8.lt_iff_toNat_lt,
      UInt8.toNat_ofNat']
    omega

theorem isBoundary_lossyBuffer (short : config.seqLength ≤ 256) :
    isBoundary config (lossyBuffer config) config.minSize = true := by
  have length : (lossyBuffer config).length = config.minSize + config.seqLength := by
    simp [lossyBuffer]
  have window : slice (lossyBuffer config) config.minSize
      (config.minSize + config.seqLength) =
        (List.range config.seqLength).map (runByte config.mode) := by
    rw [lossyBuffer, slice, drop_left' (length_replicate ..), take_of_length_le]
    simp
  unfold isBoundary
  dsimp only
  rw [length, min_self, if_pos (by omega), window, all_eq_true]
  rintro ⟨prev, curr⟩ member
  obtain ⟨place, inside, at_⟩ := mem_iff_getElem.mp member
  simp only [length_zip, length_tail, length_map, length_range] at inside
  rw [getElem_zip, getElem_tail, getElem_map, getElem_map, getElem_range, getElem_range] at at_
  obtain ⟨rfl, rfl⟩ := Prod.mk.inj at_
  exact isMonotonic_runByte config.mode (by omega)

/-- On a buffer that ends with a run the first chunk of the AVX2 loop loses a byte,
unless the vector search reports every window. -/
theorem losesByte_lossyBuffer (sensible : Sensible config) (short : config.seqLength ≤ 256)
    (pattern : config.seqLength ≠ 33) : LosesByte config (lossyBuffer config) ⟨0, 0⟩ := by
  have length : (lossyBuffer config).length = config.minSize + config.seqLength := by
    simp [lossyBuffer]
  have sequence := sensible.seqLength
  refine ⟨config.minSize, zero_le _, by omega, ?_, le_rfl, by omega, ?_,
    isBoundary_lossyBuffer short⟩
  · intro j _ before
    exact avx2Rule_of_short sensible before
  · exact vectorBoundary_eq_none (by omega)

/-- The AVX2 loop keeps every byte of every buffer exactly for runs longer than any, and
for runs of 33 bytes without overflow checks. -/
theorem forall_avx2Keeps_iff (sensible : Sensible config) :
    (∀ data, Avx2Keeps config data overflowChecks) ↔
      256 < config.seqLength ∨ config.seqLength = 33 ∧ overflowChecks = false := by
  constructor
  · intro keeps
    by_contra neither
    by_cases pattern : config.seqLength = 33
    · refine (keeps (List.replicate (config.minSize + 33) 0)).1 ⟨?_, pattern, by simp⟩
      cases overflowChecks with
      | false => exact absurd (.inr ⟨pattern, rfl⟩) neither
      | true => rfl
    · exact (keeps (lossyBuffer config)).2 ⟨0, 0⟩ .refl
        (losesByte_lossyBuffer sensible (by omega) pattern)
  · intro either data
    refine ⟨?_, ?_⟩
    · rintro ⟨checks, pattern, -⟩
      rcases either with long | ⟨-, unchecked⟩
      · omega
      · exact Bool.false_ne_true (unchecked.symm.trans checks)
    · rintro entry - ⟨i, -, -, -, -, room, silent, run⟩
      rcases either with long | ⟨pattern, -⟩
      · exact absurd (seqLength_le_of_isBoundary run) (not_le.mpr long)
      · rw [vectorBoundary_wrapped pattern (pattern ▸ room)] at silent
        contradiction

end Configurations

/-- **Which bytes chunking keeps.** For every sensible configuration and every buffer:
the ranges of the scalar and the NEON loop tile the buffer; those of the AVX2 loop are
returned and tile it if and only if the mask pattern does not overflow and no chunk ends
at a run that the vector search does not report; and chunking gives back the buffer
except where the AVX2 loop runs and loses bytes. The AVX2 loop keeps all buffers exactly
if a run is longer than 256 bytes, or has 33 and the build does not check for
overflow. -/
theorem simd_chunking_keeps_bytes_iff (sensible : Sensible config) (overflowChecks : Bool) :
    (∀ data : Bytes,
      Tiles 0 data.length (chunkBufferScalar config data) ∧
      Tiles 0 data.length (Neon.chunkBufferNeon config data) ∧
      ((∃ ranges, Avx2.chunkBufferAvx2 config data overflowChecks = .ok ranges ∧
        Tiles 0 data.length ranges) ↔ Avx2Keeps config data overflowChecks) ∧
      ∀ processor : Processor,
        (∃ chunks, chunkBuffer config data overflowChecks processor = .ok chunks ∧
          chunks.flatten = data) ↔
          (processor = .x86 true → Avx2Keeps config data overflowChecks)) ∧
    ((∀ data, Avx2Keeps config data overflowChecks) ↔
      256 < config.seqLength ∨ config.seqLength = 33 ∧ overflowChecks = false) := by
  refine ⟨?_, forall_avx2Keeps_iff sensible⟩
  intro data
  exact ⟨tiles_chunkBufferScalar sensible, tiles_chunkBufferNeon sensible,
    tiles_chunkBufferAvx2_iff sensible, flatten_chunkBuffer_iff sensible⟩

def pairConfig : SeqCdcConfig where
  minSize := 1
  targetSize := 4
  maxSize := 8
  seqLength := 2
  skipTrigger := 50
  skipSize := 256
  mode := .increasing

/-- The NEON loop keeps three bytes. -/
theorem simd_chunking_keeps_bytes_iff_pair :
    Sensible pairConfig ∧ Tiles 0 3 (Neon.chunkBufferNeon pairConfig [0, 0, 1]) :=
  ⟨⟨by decide, by decide, by decide⟩,
    ((simd_chunking_keeps_bytes_iff ⟨by decide, by decide, by decide⟩ false).1 [0, 0, 1]).2.1⟩

/-- On the bytes 0, 0, 1 the AVX2 loop returns one range of two bytes, so the last byte
is in no chunk. -/
theorem avx2_chunking_loses_a_byte :
    Sensible pairConfig ∧
      Avx2.chunkBufferAvx2 pairConfig [0, 0, 1] false = .ok [(0, 2)] ∧
      ¬ Tiles 0 3 [(0, 2)] ∧
      chunkBuffer pairConfig [0, 0, 1] false (.x86 true) = .ok [[0, 0]] := by
  refine ⟨⟨by decide, by decide, by decide⟩, rfl, ?_, rfl⟩
  rintro ⟨-, ends⟩
  exact absurd (show 0 + 2 = 3 from ends) (by decide)

end Warp.Io.Simd
