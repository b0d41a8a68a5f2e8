import Mathlib.Data.List.GetD
import Warp.Io.SimdTiling

/-! # Whether the chunks depend on the processor

The AVX2 rule cuts one byte early and in signed order, so it agrees with the scalar rule on all
buffers exactly if no run is long enough. The NEON rule forgets the pairs it skips, so it agrees on
all buffers exactly if no run can end within reach of the skipped blocks
(`Simd.simd_chunking_agrees_iff`).
-/

namespace Warp.Io.Simd

open Cutting List
open Nat (add_zero zero_le)

variable {config : SeqCdcConfig} {data : Bytes} {overflowChecks : Bool}

def rank (mode : SeqMode) (byte : UInt8) : ℕ :=
  match mode with
  | .increasing => byte.toNat
  | .decreasing => 255 - byte.toNat

theorem rank_lt_rank {mode : SeqMode} {prev curr : UInt8}
    (monotonic : isMonotonic mode prev curr = true) : rank mode prev < rank mode curr := by
  have prevBound := prev.toNat_lt
  have currBound := curr.toNat_lt
  cases mode with
  | increasing => simpa [isMonotonic, rank, UInt8.lt_iff_toNat_lt] using monotonic
  | decreasing =>
    simp only [isMonotonic, decide_eq_true_eq, GT.gt, UInt8.lt_iff_toNat_lt, rank] at monotonic ⊢
    omega

theorem rank_le (mode : SeqMode) (byte : UInt8) : rank mode byte ≤ 255 := by
  have bound := byte.toNat_lt
  cases mode with
  | increasing =>
    simp only [rank]
    omega
  | decreasing => exact Nat.sub_le _ _

variable (config data) in
/-- A run climbs with every pair, so it has at most 255 of them. -/
theorem countBefore_le (origin count : ℕ) :
    countBefore config data origin (origin + count) ≤
      rank config.mode (data.getD (origin + count - 1) 0) := by
  induction count with
  | zero =>
    rw [add_zero, countBefore_self]
    exact zero_le _
  | succ count ih =>
    rw [← Nat.add_assoc, countBefore_succ (Nat.le_add_right _ _), countPair, Nat.add_sub_cancel]
    split
    · next continues => exact ih.trans_lt (rank_lt_rank continues)
    · exact zero_le _

variable (config data) in
/-- A run is counted to a length exactly if that many pairs since the origin continue
it. -/
theorem le_countBefore_iff (origin count n : ℕ) :
    n ≤ countBefore config data origin (origin + count) ↔
      n ≤ count ∧ ∀ j, origin + count - n ≤ j → j < origin + count →
        isMonotonic config.mode (data.getD (j - 1) 0) (data.getD j 0) = true := by
  induction count generalizing n with
  | zero =>
    rw [add_zero, countBefore_self]
    exact ⟨fun none_ => ⟨none_, fun j lower upper => by omega⟩, And.left⟩
  | succ count ih =>
    rw [← Nat.add_assoc, countBefore_succ (Nat.le_add_right _ _), countPair]
    cases n with
    | zero => exact iff_of_true (zero_le _) ⟨zero_le _, fun j lower upper => by omega⟩
    | succ n =>
      split
      · next continues =>
        rw [Nat.succ_le_succ_iff, ih n]
        constructor
        · rintro ⟨enough, run⟩
          refine ⟨by omega, fun j lower upper => ?_⟩
          rcases Nat.eq_or_lt_of_le (Nat.le_of_lt_succ upper) with rfl | earlier
          · exact continues
          · exact run j (by omega) earlier
        · rintro ⟨enough, run⟩
          exact ⟨by omega, fun j lower upper => run j (by omega) (by omega)⟩
      · next broken =>
        refine iff_of_false (by omega) ?_
        rintro ⟨-, run⟩
        exact broken (run (origin + count) (by omega) (by omega))

variable (config data) in
/-- What the pair at a position completes, by the pairs before it. -/
theorem le_countPair_iff {origin i : ℕ} (inside : origin ≤ i) (n : ℕ) :
    n ≤ countPair config data (countBefore config data origin i) i ↔
      n ≤ i + 1 - origin ∧ ∀ j, i + 1 - n ≤ j → j < i + 1 →
        isMonotonic config.mode (data.getD (j - 1) 0) (data.getD j 0) = true := by
  have counted := le_countBefore_iff config data origin (i + 1 - origin) n
  rwa [show origin + (i + 1 - origin) = i + 1 by omega, countBefore_succ inside] at counted

/-- Where the pairs of a run are counted from does not matter if enough of them are
left. -/
theorem countingRule_origin (sensible : Sensible config) {start origin other i : ℕ}
    (before : other ≤ origin)
    (room : config.minSize ≤ i - start → origin + (config.seqLength - 1) ≤ i + 1) :
    countingRule config data start origin i = countingRule config data start other i := by
  have sequence := sensible.seqLength
  unfold countingRule
  by_cases large : config.minSize ≤ i - start
  · have enough := room large
    have here := le_countPair_iff config data (show origin ≤ i by omega) (config.seqLength - 1)
    have there := le_countPair_iff config data (show other ≤ i by omega) (config.seqLength - 1)
    simp only [ge_iff_le, here, there, show config.seqLength - 1 ≤ i + 1 - origin by omega,
      show config.seqLength - 1 ≤ i + 1 - other by omega]
  · rw [if_neg fun both => large both.1, if_neg fun both => large both.1]

variable (config data) in
theorem countPair_le_one {origin i : ℕ} (outside : i < origin) :
    countPair config data (countBefore config data origin i) i ≤ 1 := by
  rw [countBefore, Nat.sub_eq_zero_of_le outside.le, countPair]
  split
  · exact le_rfl
  · exact zero_le _

variable (config data) in
theorem countPair_le (origin i : ℕ) :
    countPair config data (countBefore config data origin i) i ≤ 255 := by
  rcases Nat.lt_or_ge i origin with outside | inside
  · exact (countPair_le_one config data outside).trans (by decide)
  · have climbs := countBefore_le config data origin (i + 1 - origin)
    rw [show origin + (i + 1 - origin) = i + 1 by omega, countBefore_succ inside] at climbs
    exact climbs.trans (rank_le _ _)

theorem countingRule_of_long (long : 256 < config.seqLength) (start origin i : ℕ) :
    countingRule config data start origin i = maximumRule config start i := by
  have bound := countPair_le config data origin i
  rw [countingRule, if_neg (by omega)]

theorem avx2Rule_of_long (long : 256 < config.seqLength) (entry : Entry) (i : ℕ) :
    avx2Rule config data entry i = maximumRule config entry.start i := by
  have silent : ¬ Avx2.isBoundary config data i = true := fun run =>
    absurd (seqLength_le_of_isBoundary run) (Nat.not_le.mpr long)
  rw [avx2Rule, vectorBoundary_eq_none (.inr (by omega))]
  simp only [if_neg silent, ite_self]

/-- A chunk counted from behind its start cannot hold a run longer than its maximum. -/
theorem countingRule_of_capped (sensible : Sensible config)
    (capped : config.maxSize + 1 < config.seqLength) {start origin i : ℕ} (behind : start < origin)
    (inside : i ≤ start + config.maxSize) :
    countingRule config data start origin i = maximumRule config start i := by
  have minimum := sensible.minSize
  have maximum := sensible.maxSize
  refine if_neg fun fires => ?_
  rcases Nat.lt_or_ge i origin with outside | counted
  · have single := countPair_le_one config data outside
    omega
  · have room := ((le_countPair_iff config data counted _).mp fires.2).1
    omega

/-- Skipping loses no pair of a run that could end a chunk: no block is skipped, a run is so
short that enough pairs are left behind the skipped blocks, or no run is long enough, as it has
more bytes than there are or than a first chunk may have. -/
def SkipsHarmlessly (config : SeqCdcConfig) : Prop :=
  config.minSize ≤ 16 ∨ config.seqLength ≤ 3 + ((config.minSize - 1) % 16 - 1) ∨
    256 < config.seqLength ∨ config.maxSize + 1 < config.seqLength

section
variable (sensible : Sensible config)
include sensible

theorem neonRule_eq_scalarRule
    (harmless : config.minSize ≤ 16 ∨ config.seqLength ≤ 3 + ((config.minSize - 1) % 16 - 1))
    {entry : Entry} (lower : entry.start ≤ entry.first) (upper : entry.first ≤ entry.start + 1)
    (i : ℕ) : neonRule config data entry i = scalarRule config data entry i := by
  have minimum := sensible.minSize
  by_cases skips : neonOrigin config entry = entry.first
  · rw [neonRule, skips, scalarRule]
  · apply countingRule_origin sensible (Nat.le_add_right _ _)
    intro large
    unfold neonOrigin at skips
    omega

/-- Chunks are entered at or just after their start; if no run is short enough, always after
it. -/
theorem chunkBufferNeon_eq_of_harmless (harmless : SkipsHarmlessly config) :
    Neon.chunkBufferNeon config data = chunkBufferScalar config data := by
  have minimum := sensible.minSize
  have maximum := sensible.maxSize
  let related (here there : Entry) : Prop :=
    here = there ∧ here.start ≤ here.first ∧ here.first ≤ here.start + 1 ∧
      (config.maxSize + 1 < config.seqLength → here.start < here.first)
  have alike : ∀ here there, related here there → here.start = there.start ∧
      nextCut (neonRule config data) data.length here =
        nextCut (scalarRule config data) data.length there := by
    rintro entry _ ⟨rfl, lower, upper, behind⟩
    refine ⟨rfl, nextCut_congr le_rfl (fun i after before => by omega) fun i _ uncut => ?_⟩
    rcases harmless with small | short | long | capped
    · exact neonRule_eq_scalarRule sensible (.inl small) lower upper i
    · exact neonRule_eq_scalarRule sensible (.inr short) lower upper i
    · exact (countingRule_of_long long ..).trans (countingRule_of_long long ..).symm
    · have inside := le_of_uncut uncut (by omega)
      have skipped : entry.start < neonOrigin config entry :=
        (behind capped).trans_le (Nat.le_add_right _ _)
      exact (countingRule_of_capped sensible capped skipped inside).trans
        (countingRule_of_capped sensible capped (behind capped) inside).symm
  have enters : ∀ here there cut, related here there →
      nextCut (neonRule config data) data.length here = some cut → related cut.next cut.next := by
    intro here there cut relates cuts
    rw [(alike here there relates).2] at cuts
    obtain ⟨rfl, lower, upper, behind⟩ := relates
    obtain ⟨i, -, -, at_, uncut⟩ := nextCut_eq_some_iff.mp cuts
    obtain ⟨first, starts⟩ := countingRule_eq_some at_
    refine ⟨rfl, by omega, by omega, fun capped => ?_⟩
    rw [scalarRule, countingRule_of_capped sensible capped (behind capped)
      (le_of_uncut uncut (by omega))] at at_
    obtain ⟨-, rfl⟩ := maximumRule_eq_some at_
    exact Nat.lt_succ_self i
  exact (chunkBufferNeon_chain data sensible).eq_of_related alike enters
    ⟨rfl, zero_le _, le_rfl, fun _ => Nat.one_pos⟩ (chunkBufferScalar_chain config data)

theorem chunkBufferAvx2_eq_of_long (long : 256 < config.seqLength) :
    Avx2.chunkBufferAvx2 config data overflowChecks = .ok (chunkBufferScalar config data) := by
  have minimum := sensible.minSize
  have maximum := sensible.maxSize
  let related (here there : Entry) : Prop :=
    here.start = there.start ∧ here.first ≤ there.first ∧ there.first ≤ here.start + 1
  have alike : ∀ here there, related here there → here.start = there.start ∧
      nextCut (avx2Rule config data) data.length here =
        nextCut (scalarRule config data) data.length there := by
    rintro here there ⟨starts, earlier, later⟩
    refine ⟨starts, nextCut_congr earlier ?_ ?_⟩
    · intro i lower upper
      exact avx2Rule_of_short sensible (by omega)
    · intro i _ _
      rw [avx2Rule_of_long long, scalarRule, countingRule_of_long long, starts]
  have enters : ∀ here there cut, related here there →
      nextCut (avx2Rule config data) data.length here = some cut → related cut.next cut.next := by
    intro here there cut _ cuts
    obtain ⟨i, -, -, at_, -⟩ := nextCut_eq_some_iff.mp cuts
    rw [avx2Rule_of_long long] at at_
    obtain ⟨-, rfl⟩ := maximumRule_eq_some at_
    exact ⟨rfl, le_rfl, le_rfl⟩
  have fits : ¬ PatternOverflows config data overflowChecks := by
    rintro ⟨-, pattern, -⟩
    omega
  have start : related ⟨0, 0⟩ ⟨0, 1⟩ := ⟨rfl, zero_le _, le_rfl⟩
  obtain ⟨ranges, ok, chain⟩ := chunkBufferAvx2_chain data sensible
  rw [chunkBufferAvx2_checked fits, ok,
    chain.eq_of_related alike enters start (chunkBufferScalar_chain config data)]

end

theorem isMonotonic_runByte_zero (mode : SeqMode) (place : ℕ) :
    ¬ isMonotonic mode (runByte mode place) (runByte mode 0) = true := by
  cases mode with
  | increasing => simp [isMonotonic, runByte]
  | decreasing =>
    have bound := (UInt8.ofNat (255 - place)).toNat_lt
    simp only [isMonotonic, runByte, decide_eq_true_eq, GT.gt, UInt8.lt_iff_toNat_lt]
    rw [show (UInt8.ofNat (255 - 0)).toNat = 255 from rfl]
    omega

/-- There is a buffer in which exactly the pairs of two short runs are monotone. The first run
may be empty. -/
theorem exists_twoRuns (mode : SeqMode) (first last first' last' : ℕ)
    (short : last < first + 255) (apart : last < first ∨ last + 1 < first')
    (short' : last' < first' + 255) (length : ℕ) :
    ∃ data : Bytes, data.length = length ∧ ∀ j, 0 < j → j < length →
      (isMonotonic mode (data.getD (j - 1) 0) (data.getD j 0) = true ↔
        first ≤ j ∧ j ≤ last ∨ first' ≤ j ∧ j ≤ last') := by
  -- How far the runs have climbed at a position.
  let climb (j : ℕ) : ℕ :=
    if first ≤ j ∧ j ≤ last then j + 1 - first
    else if first' ≤ j ∧ j ≤ last' then j + 1 - first' else 0
  refine ⟨(List.range length).map fun j => runByte mode (climb j), by simp, ?_⟩
  intro j positive inside
  have byte {i : ℕ} (within : i < length) :
      ((List.range length).map fun j => runByte mode (climb j)).getD i 0 =
        runByte mode (climb i) := by
    simp [getD_eq_getElem?_getD, within]
  rw [byte (by omega), byte inside]
  by_cases here : first ≤ j ∧ j ≤ last ∨ first' ≤ j ∧ j ≤ last'
  · have next : climb j = climb (j - 1) + 1 ∧ climb j < 256 := by grind
    rw [next.1, iff_true_right here]
    exact isMonotonic_runByte mode (next.1 ▸ next.2)
  · have next : climb j = 0 := by grind
    rw [next]
    exact iff_of_false (isMonotonic_runByte_zero mode _) here

/-- A chunk of a counting loop ends with the data, after a run, or when it is full. -/
theorem length_stepFrom_cases (sensible : Sensible config) {origin : Entry → ℕ} {limit : ℕ}
    {entry : Entry} (entered : entry.first ≤ entry.start + config.maxSize) {length : ℕ}
    (same : (stepFrom (fun entry => countingRule config data entry.start (origin entry)) limit
      entry).1 = length) :
    length = limit - entry.start ∨ ∃ i, entry.first ≤ i ∧ i < limit ∧
      if config.seqLength - 1 ≤ countPair config data (countBefore config data (origin entry) i) i
      then length = i - entry.start + 1
      else i = entry.start + config.maxSize ∧ length = config.maxSize := by
  have minimum := sensible.minSize
  have maximum := sensible.maxSize
  rw [stepFrom] at same
  split at same
  · next cut cuts =>
    obtain ⟨i, after, inside, at_, uncut⟩ := nextCut_eq_some_iff.mp cuts
    have inTime := le_of_uncut uncut entered
    refine .inr ⟨i, after, inside, ?_⟩
    unfold countingRule at at_
    split at at_
    · next fires =>
      obtain rfl := Option.some.inj at_
      rw [if_pos fires.2, ← same]
    · next silent =>
      obtain ⟨full, rfl⟩ := maximumRule_eq_some at_
      rw [if_neg fun fires => silent ⟨by omega, fires⟩]
      dsimp only at same
      omega
  · exact .inl same.symm

/-- Without overflow checks the pattern of 33 bytes matches everywhere, and a run that starts
when the chunk has its minimum size is cut one byte short. -/
theorem exists_chunkBufferAvx2_ne_wrapped (sensible : Sensible config)
    (pattern : config.seqLength = 33) :
    ∃ data, Avx2.chunkBufferAvx2 config data false ≠ .ok (chunkBufferScalar config data) := by
  have minimum := sensible.minSize
  have maximum := sensible.maxSize
  obtain ⟨data, length, pairs⟩ := exists_twoRuns config.mode 1 0 (config.minSize + 1)
    (config.minSize + 32) (by omega) (.inl Nat.one_pos) (by omega) (config.minSize + 33)
  have wrapped : nextCut (avx2Rule config data) data.length ⟨0, 0⟩ =
      some ⟨config.minSize + 31 - 0 + 1, ⟨config.minSize + 31 + 1, config.minSize + 31 + 1⟩⟩ := by
    apply nextCut_eq_some_iff.mpr
    refine ⟨config.minSize, zero_le _, by omega, ?_, fun j _ before =>
      avx2Rule_of_short sensible before⟩
    rw [avx2Rule, if_pos ⟨by dsimp only; omega, by omega⟩,
      vectorBoundary_wrapped pattern (by omega)]
  refine ⟨data, fun same => ?_⟩
  obtain ⟨ranges, ok, chain⟩ := chunkBufferAvx2_chain data sensible
  obtain ⟨rest, rfl, -⟩ := chain.exists_tail wrapped
  obtain ⟨rest', scalar⟩ := (chunkBufferScalar_chain config data).eq_cons (by dsimp only; omega)
  rw [ok, scalar] at same
  have first := congrArg Prod.snd (List.cons.inj (Outcome.ok.inj same)).1
  rcases length_stepFrom_cases sensible (by dsimp only; omega) first.symm with
    ended | ⟨i, after, inside, ends⟩
  · dsimp only at ended
    omega
  · dsimp only at after ends
    split at ends
    · next fires =>
      have run := ((le_countPair_iff config data after _).mp fires).2 config.minSize
      rw [pairs _ minimum (by omega)] at run
      omega
    · next silent =>
      refine silent ((le_countPair_iff config data after _).mpr
        ⟨by omega, fun j lower upper => ?_⟩)
      rw [pairs j (by omega) (by omega)]
      omega

/-- The AVX2 loop agrees with the scalar one on all buffers exactly if no run is long
enough. -/
theorem forall_chunkBufferAvx2_eq_iff (sensible : Sensible config) :
    (∀ data, Avx2.chunkBufferAvx2 config data overflowChecks =
      .ok (chunkBufferScalar config data)) ↔ 256 < config.seqLength := by
  constructor
  · intro agrees
    have keeps (data : Bytes) : Avx2Keeps config data overflowChecks :=
      (tiles_chunkBufferAvx2_iff sensible).mp ⟨_, agrees data, tiles_chunkBufferScalar sensible⟩
    rcases (forall_avx2Keeps_iff sensible).mp keeps with long | ⟨pattern, rfl⟩
    · exact long
    · obtain ⟨data, differs⟩ := exists_chunkBufferAvx2_ne_wrapped sensible pattern
      exact absurd (agrees data) differs
  · intro long data
    exact chunkBufferAvx2_eq_of_long sensible long

section Runs
variable {entry : Entry}

/-- A counting loop cuts after the first run of enough pairs, once the chunk is large enough. -/
theorem nextCut_of_run (sensible : Sensible config) {origin : Entry → ℕ} {limit last : ℕ}
    (entered : entry.first ≤ last)
    (large : config.minSize ≤ last - entry.start) (small : last - entry.start ≤ config.maxSize)
    (inside : last < limit) (counted : origin entry + (config.seqLength - 1) ≤ last + 1)
    (several : 3 ≤ config.seqLength)
    (run : ∀ j, last + 1 ≤ j + (config.seqLength - 1) → j ≤ last →
      isMonotonic config.mode (data.getD (j - 1) 0) (data.getD j 0) = true)
    (quiet : ∀ j, origin entry ≤ j → j + (config.seqLength - 1) ≤ last →
      ¬ isMonotonic config.mode (data.getD (j - 1) 0) (data.getD j 0) = true) :
    nextCut (fun entry i => countingRule config data entry.start (origin entry) i) limit entry =
      some ⟨last - entry.start + 1, ⟨last + 1, last + 1⟩⟩ := by
  have minimum := sensible.minSize
  have fires : config.seqLength - 1 ≤
      countPair config data (countBefore config data (origin entry) last) last := by
    refine (le_countPair_iff config data (by omega) _).mpr ⟨by omega, fun j lower upper => ?_⟩
    exact run j (by omega) (by omega)
  refine nextCut_eq_some_iff.mpr ⟨last, entered, inside, if_pos ⟨large, fires⟩, ?_⟩
  · intro j _ before
    have unfull : maximumRule config entry.start j = none := if_neg (by omega)
    refine (if_neg fun fires => ?_).trans unfull
    rcases Nat.lt_or_ge j (origin entry) with outside | counted'
    · have single := countPair_le_one config data outside
      omega
    · obtain ⟨room, pairs⟩ := (le_countPair_iff config data counted' _).mp fires.2
      exact quiet (j + 1 - (config.seqLength - 1)) (by omega) (by omega)
        (pairs _ le_rfl (by omega))

/-- A chunk that the NEON loop cuts elsewhere: the pairs of a run end at a place at which the
chunk is large enough and not too large, but part of them lies in a skipped block. Where the
maximum size would make up for it the run has one pair more. -/
theorem stepFrom_neon_ne (sensible : Sensible config) (entry : Entry) {place last : ℕ}
    (lower : entry.start ≤ entry.first) (upper : entry.first ≤ entry.start + 1)
    (skips : entry.first < neonOrigin config entry)
    (size : data.length = entry.start + config.maxSize + 2)
    (pairs : ∀ j, entry.first ≤ j → j < data.length →
      (isMonotonic config.mode (data.getD (j - 1) 0) (data.getD j 0) = true ↔
        entry.start + place + 2 ≤ j + config.seqLength ∧ j ≤ entry.start + last))
    (several : 3 ≤ config.seqLength) (large : config.minSize ≤ place)
    (long : config.seqLength ≤ place + 1) (small : place ≤ config.maxSize)
    (skipped : entry.start + place + 2 < neonOrigin config entry + config.seqLength)
    (after : place ≤ last)
    (extra : place + 1 = config.maxSize → last = place + 1 ∧
      neonOrigin config entry + config.seqLength = entry.start + place + 3) :
    (∃ next, nextCut (scalarRule config data) data.length entry = some ⟨place + 1, next⟩) ∧
      (stepFrom (neonRule config data) data.length entry).1 ≠ place + 1 := by
  have short := neonOrigin_lt_minSize lower skips
  constructor
  · have run (j : ℕ) (near : entry.start + place + 1 ≤ j + (config.seqLength - 1))
        (before : j ≤ entry.start + place) :
        isMonotonic config.mode (data.getD (j - 1) 0) (data.getD j 0) = true :=
      (pairs j (by omega) (by omega)).mpr ⟨by omega, by omega⟩
    have quiet (j : ℕ) (inside : entry.first ≤ j)
        (far : j + (config.seqLength - 1) ≤ entry.start + place) :
        ¬ isMonotonic config.mode (data.getD (j - 1) 0) (data.getD j 0) = true := by
      intro continues
      have bounds := (pairs j inside (by omega)).mp continues
      omega
    have cut : nextCut (scalarRule config data) data.length entry = some _ :=
      nextCut_of_run sensible (by omega) (by omega) (by omega) (by omega) (by omega) several run
        quiet
    rw [Nat.add_sub_cancel_left] at cut
    exact ⟨_, cut⟩
  · intro same
    rcases length_stepFrom_cases sensible (by omega) same with
      ended | ⟨i, entered, inside, ends⟩
    · omega
    · split at ends
      · next fires =>
        have room := ((le_countPair_iff config data (by omega) _).mp fires).1
        omega
      · next silent =>
        obtain ⟨rfl, room⟩ := extra (by omega)
        refine silent ((le_countPair_iff config data (by omega) _).mpr
          ⟨by omega, fun j near before => ?_⟩)
        exact (pairs j (by omega) (by omega)).mpr ⟨by omega, by omega⟩

end Runs

/-- Where skipping is not harmless, a run can end in every chunk entered like a given one so
that part of its pairs is skipped: the place at which it ends, and its last pair. -/
theorem exists_skipped_place (sensible : Sensible config) (origin : ℕ) (block : 16 ≤ origin)
    (several : 4 ≤ config.seqLength) (bytes : config.seqLength ≤ 256)
    (fits : config.seqLength ≤ config.maxSize + 1)
    (reaches : config.minSize + 3 ≤ origin + config.seqLength)
    (near : config.minSize ≤ origin + 16) :
    ∃ place last, config.minSize ≤ place ∧ config.seqLength ≤ place + 1 ∧
      place ≤ config.maxSize ∧ place + 2 < origin + config.seqLength ∧ place ≤ last ∧
      last + config.seqLength < place + 257 ∧
      (place + 1 = config.maxSize → last = place + 1 ∧
        origin + config.seqLength = place + 3) := by
  have maximum := sensible.maxSize
  by_cases full : config.maxSize + 2 = origin + config.seqLength
  · by_cases exact_ : config.minSize + 3 = origin + config.seqLength
    · exact ⟨config.minSize, config.minSize + 1, by omega, by omega, by omega, by omega, by omega,
        by omega, by omega⟩
    · exact ⟨origin + config.seqLength - 4, origin + config.seqLength - 4, by omega, by omega,
        by omega, by omega, by omega, by omega, by omega⟩
  · exact ⟨min config.maxSize (origin + config.seqLength - 3),
      min config.maxSize (origin + config.seqLength - 3), by omega, by omega, by omega, by omega,
      by omega, by omega, by omega⟩

theorem ranges_ne {event other : Entry → ℕ → Option Cut} {limit : ℕ} {entry next : Entry}
    {ranges others : List (ℕ × ℕ)} {length : ℕ} (chain : Cutting.Chain event limit entry ranges)
    (chain' : Cutting.Chain other limit entry others) (open_ : entry.start < limit)
    (cut : nextCut event limit entry = some ⟨length, next⟩)
    (differs : (stepFrom other limit entry).1 ≠ length) : others ≠ ranges := by
  rintro rfl
  obtain ⟨rest, shape, -⟩ := chain.exists_tail cut
  obtain ⟨rest', shape'⟩ := chain'.eq_cons open_
  rw [shape'] at shape
  exact differs (congrArg Prod.snd (List.cons.inj shape).1)

section Skipping
variable (sensible : Sensible config) (several : 4 ≤ config.seqLength)
  (bytes : config.seqLength ≤ 256) (fits : config.seqLength ≤ config.maxSize + 1)
include sensible several bytes fits

/-- The first chunk is entered after its start: blocks are skipped from the second byte on. -/
theorem exists_chunkBufferNeon_ne_first (block : 18 ≤ config.minSize)
    (reaches : (config.minSize - 2) % 16 + 4 ≤ config.seqLength) :
    ∃ data, Neon.chunkBufferNeon config data ≠ chunkBufferScalar config data := by
  have origin : neonOrigin config ⟨0, 1⟩ = config.minSize - 1 - (config.minSize - 2) % 16 := by
    simp only [neonOrigin]
    omega
  obtain ⟨place, last, large, long, small, skipped, after, short, extra⟩ :=
    exists_skipped_place sensible (config.minSize - 1 - (config.minSize - 2) % 16) (by omega)
      several bytes fits (by omega) (by omega)
  obtain ⟨data, size, pairs⟩ := exists_twoRuns config.mode 1 0 (place + 2 - config.seqLength) last
    (by omega) (.inl Nat.one_pos) (by omega) (config.maxSize + 2)
  have here (j : ℕ) (inside : 1 ≤ j) (before : j < data.length) :
      isMonotonic config.mode (data.getD (j - 1) 0) (data.getD j 0) = true ↔
        0 + place + 2 ≤ j + config.seqLength ∧ j ≤ 0 + last := by
    rw [pairs j inside (size ▸ before)]
    omega
  obtain ⟨⟨next, cut⟩, differs⟩ := stepFrom_neon_ne sensible ⟨0, 1⟩ (zero_le _) le_rfl
    (by rw [origin]; dsimp only; omega) (by dsimp only; omega) here (by omega) large long small
    (by rw [origin]; dsimp only; omega) after (by rw [origin]; dsimp only; omega)
  exact ⟨data, ranges_ne (chunkBufferScalar_chain config data)
    (chunkBufferNeon_chain data sensible) (by dsimp only; omega) cut differs⟩

/-- A chunk after a run is entered at its start: for minimum sizes of whole blocks and a byte it
skips a block more than the first chunk. -/
theorem exists_chunkBufferNeon_ne_second (block : 17 ≤ config.minSize)
    (whole : config.minSize % 16 = 1)
    (together : config.minSize = 17 ∨ config.seqLength ≤ 18) :
    ∃ data, Neon.chunkBufferNeon config data ≠ chunkBufferScalar config data := by
  have maximum := sensible.maxSize
  let cut := max config.minSize (config.seqLength - 1)
  let entry : Entry := ⟨cut + 1, cut + 1⟩
  have origin : neonOrigin config entry = cut + 1 + (config.minSize - 1) := by
    simp only [neonOrigin, entry]
    omega
  obtain ⟨place, last, large, long, small, skipped, after, short, extra⟩ :=
    exists_skipped_place sensible (config.minSize - 1) (by omega) several bytes fits (by omega)
      (by omega)
  obtain ⟨data, size, pairs⟩ := exists_twoRuns config.mode (cut + 2 - config.seqLength) cut
    (cut + 1 + place + 2 - config.seqLength) (cut + 1 + last) (by omega) (.inr (by omega))
    (by omega) (cut + 1 + config.maxSize + 2)
  have run (j : ℕ) (near : cut + 1 ≤ j + (config.seqLength - 1)) (before : j ≤ cut) :
      isMonotonic config.mode (data.getD (j - 1) 0) (data.getD j 0) = true := by
    rw [pairs j (by omega) (by omega)]
    omega
  have quiet (j : ℕ) (inside : 1 ≤ j) (far : j + (config.seqLength - 1) ≤ cut) :
      ¬ isMonotonic config.mode (data.getD (j - 1) 0) (data.getD j 0) = true := by
    rw [pairs j inside (by omega)]
    omega
  -- Both loops cut the first chunk after the first run.
  have scalar : nextCut (scalarRule config data) data.length ⟨0, 1⟩ = some ⟨cut - 0 + 1, entry⟩ :=
    nextCut_of_run sensible (by dsimp only; omega) (by dsimp only; omega) (by dsimp only; omega)
      (by omega) (by dsimp only; omega) (by omega) run quiet
  have neon : nextCut (neonRule config data) data.length ⟨0, 1⟩ = some ⟨cut - 0 + 1, entry⟩ :=
    nextCut_of_run sensible (by dsimp only; omega) (by dsimp only; omega) (by dsimp only; omega)
      (by omega) (by simp only [neonOrigin]; omega) (by omega) run
      (fun j inside => quiet j (by simp only [neonOrigin] at inside; omega))
  obtain ⟨rest, shape, chain⟩ := (chunkBufferScalar_chain config data).exists_tail scalar
  obtain ⟨rest', shape', chain'⟩ := (chunkBufferNeon_chain data sensible).exists_tail neon
  have here (j : ℕ) (inside : cut + 1 ≤ j) (before : j < data.length) :
      isMonotonic config.mode (data.getD (j - 1) 0) (data.getD j 0) = true ↔
        cut + 1 + place + 2 ≤ j + config.seqLength ∧ j ≤ cut + 1 + last := by
    rw [pairs j (by omega) (size ▸ before)]
    omega
  obtain ⟨⟨next, second⟩, differs⟩ := stepFrom_neon_ne sensible entry le_rfl (Nat.le_succ _)
    (by rw [origin]; dsimp only [entry]; omega) (by dsimp only [entry]; omega) here (by omega)
    large long small (by rw [origin]; dsimp only [entry]; omega) after
    (by rw [origin]; dsimp only [entry]; omega)
  refine ⟨data, fun same => ranges_ne chain chain' (by dsimp only [entry]; omega) second differs ?_⟩
  rw [shape, shape'] at same
  exact (List.cons.inj same).2

end Skipping

/-- The NEON loop agrees with the scalar one on all buffers exactly if skipping is harmless. -/
theorem forall_chunkBufferNeon_eq_iff (sensible : Sensible config) :
    (∀ data, Neon.chunkBufferNeon config data = chunkBufferScalar config data) ↔
      SkipsHarmlessly config := by
  refine ⟨fun agrees => ?_, fun harmless data => chunkBufferNeon_eq_of_harmless sensible harmless⟩
  by_contra harmful
  unfold SkipsHarmlessly at harmful
  obtain ⟨data, differs⟩ :
      ∃ data, Neon.chunkBufferNeon config data ≠ chunkBufferScalar config data := by
    by_cases atStart : config.minSize % 16 = 1 ∧ (config.minSize = 17 ∨ config.seqLength ≤ 18)
    · exact exists_chunkBufferNeon_ne_second sensible (by omega) (by omega) (by omega) (by omega)
        atStart.1 atStart.2
    · exact exists_chunkBufferNeon_ne_first sensible (by omega) (by omega) (by omega) (by omega)
        (by omega)
  exact differs (agrees data)

/-- **Agreement of the loops.** For every sensible configuration and every build: the AVX2 loop
returns the ranges of the scalar loop on all buffers exactly if a run has more than 256 bytes, so
that there is none. The NEON loop returns them on all buffers exactly if it skips no block, if
enough pairs of a run are left behind the skipped blocks, or if no run is short enough for a
chunk. Where both do, chunking does not depend on the processor. -/
theorem simd_chunking_agrees_iff (sensible : Sensible config) (overflowChecks : Bool) :
    ((∀ data, Avx2.chunkBufferAvx2 config data overflowChecks =
      .ok (chunkBufferScalar config data)) ↔ 256 < config.seqLength) ∧
    ((∀ data, Neon.chunkBufferNeon config data = chunkBufferScalar config data) ↔
      SkipsHarmlessly config) ∧
    ∀ (data : Bytes) (processor : Processor),
      (processor = .x86 true → 256 < config.seqLength) →
      (processor = .aarch64 → SkipsHarmlessly config) →
      chunkBuffer config data overflowChecks processor =
        chunkBuffer config data overflowChecks .other := by
  refine ⟨forall_chunkBufferAvx2_eq_iff sensible, forall_chunkBufferNeon_eq_iff sensible, ?_⟩
  intro data processor avx2 neon
  have ranges : chunkBufferAuto config data overflowChecks processor =
      .ok (chunkBufferScalar config data) := by
    cases processor with
    | x86 found =>
      cases found with
      | false => rfl
      | true => exact chunkBufferAvx2_eq_of_long sensible (avx2 rfl)
    | aarch64 => exact congrArg Outcome.ok (chunkBufferNeon_eq_of_harmless sensible (neon rfl))
    | other => rfl
  rw [chunkBuffer, ranges]
  rfl

/-- Sizes at which the NEON loop skips one block. -/
def blockConfig : SeqCdcConfig where
  minSize := 18
  targetSize := 32
  maxSize := 64
  seqLength := 5
  skipTrigger := 50
  skipSize := 256
  mode := .increasing

/-- Runs of four bytes, all found behind the block that is skipped. -/
theorem simd_chunking_agrees_iff_blocks :
    Sensible { blockConfig with minSize := 32, seqLength := 4 } ∧
      ∀ data, Neon.chunkBufferNeon { blockConfig with minSize := 32, seqLength := 4 } data =
        chunkBufferScalar { blockConfig with minSize := 32, seqLength := 4 } data :=
  ⟨⟨by decide, by decide, by decide⟩,
    (simd_chunking_agrees_iff ⟨by decide, by decide, by decide⟩ false).2.1.mpr
      (Or.inr (Or.inl (by decide)))⟩

/-- On the bytes 0, 0, 1 the AVX2 loop cuts before the run's last byte and the scalar
loop after it; with a minimum size of 18 the NEON loop has skipped the first pairs of a
run that the scalar loop counts. -/
theorem simd_chunking_depends_on_processor :
    (Sensible pairConfig ∧
      Avx2.chunkBufferAvx2 pairConfig [0, 0, 1] false = .ok [(0, 2)] ∧
      chunkBufferScalar pairConfig [0, 0, 1] = [(0, 3)]) ∧
    Sensible blockConfig ∧
      let data := replicate 15 0 ++ [1, 2, 3, 4, 0]
      Neon.chunkBufferNeon blockConfig data = [(0, 20)] ∧
      chunkBufferScalar blockConfig data = [(0, 19), (19, 1)] :=
  ⟨⟨⟨by decide, by decide, by decide⟩, rfl, rfl⟩, ⟨by decide, by decide, by decide⟩, rfl, rfl⟩

end Warp.Io.Simd
