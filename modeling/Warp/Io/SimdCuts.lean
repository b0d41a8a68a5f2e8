import Warp.Foundation.Cutting
import Warp.Io.Simd

/-! # The cutting rules of the chunking loops

What each chunking loop returns are the ranges that its rule cuts (`Simd.chunkBufferScalar_chain`,
`Simd.chunkBufferNeon_chain`, `Simd.chunkBufferAvx2_chain`). The rules of the scalar and the NEON
loop differ only in where they start counting the pairs of a run: NEON forgets the pairs in the
blocks it skips.
-/

namespace Warp.Io.Simd

open Cutting Outcome List Avx2 Option

variable (config : SeqCdcConfig) (data : Bytes)

structure Sensible : Prop where
  seqLength : 2 ≤ config.seqLength
  minSize : 1 ≤ config.minSize
  maxSize : config.minSize ≤ config.maxSize

def countBefore (origin i : ℕ) : ℕ :=
  (List.range' origin (i - origin)).foldl (countPair config data) 0

def maximumRule (start i : ℕ) : Option Cut :=
  if i - start ≥ config.maxSize then some ⟨i - start, ⟨i, i + 1⟩⟩ else none

/-- The rule of a loop that counts the pairs of a run from a position on. -/
def countingRule (start origin i : ℕ) : Option Cut :=
  if i - start ≥ config.minSize ∧
      countPair config data (countBefore config data origin i) i ≥ config.seqLength - 1 then
    some ⟨i - start + 1, ⟨i + 1, i + 1⟩⟩
  else maximumRule config start i

def scalarRule (entry : Entry) (i : ℕ) : Option Cut :=
  countingRule config data entry.start entry.first i

/-- The first position of a chunk that the NEON loop does not skip. -/
def neonOrigin (entry : Entry) : ℕ :=
  entry.first + 16 * ((config.minSize - 1 - (entry.first - entry.start)) / 16)

def neonRule (entry : Entry) (i : ℕ) : Option Cut :=
  countingRule config data entry.start (neonOrigin config entry) i

/-- What the vector search reports at a position, if it does not panic. -/
def vectorBoundary (i : ℕ) : Option ℕ :=
  match Avx2.searchWindow config data false i with
  | .ok found => found
  | _ => none

def avx2Rule (entry : Entry) (i : ℕ) : Option Cut :=
  if i - entry.start ≥ config.minSize ∧ data.length - i ≥ config.seqLength then
    match vectorBoundary config data i with
    | some offset => some ⟨i + offset - entry.start + 1, ⟨i + offset + 1, i + offset + 1⟩⟩
    | none =>
      if Avx2.isBoundary config data i then
        some ⟨i + config.seqLength - 1 - entry.start, ⟨i + config.seqLength, i + config.seqLength⟩⟩
      else maximumRule config entry.start i
  else maximumRule config entry.start i

variable {config data} {i : ℕ} {cut : Cut} {entry : Entry} {origin : ℕ} {start first : ℕ}

theorem countBefore_self (origin : ℕ) : countBefore config data origin origin = 0 := by
  rw [countBefore, Nat.sub_self]
  rfl

theorem countBefore_succ (inside : origin ≤ i) :
    countBefore config data origin (i + 1) =
      countPair config data (countBefore config data origin i) i := by
  rw [countBefore, show i + 1 - origin = i - origin + 1 by omega, range'_1_concat,
    foldl_append, Nat.add_sub_cancel' inside]
  rfl

theorem maximumRule_eq_some (cuts : maximumRule config start i = some cut) :
    config.maxSize ≤ i - start ∧ cut = ⟨i - start, ⟨i, i + 1⟩⟩ := by
  unfold maximumRule at cuts
  split at cuts
  · next full => exact ⟨full, (some.inj cuts).symm⟩
  · contradiction

theorem countingRule_of_short (sensible : Sensible config) (short : i - start < config.minSize) :
    countingRule config data start origin i = none := by
  have maximum := sensible.maxSize
  rw [countingRule, if_neg (by omega), maximumRule, if_neg (by omega)]

/-- A cut of a counting loop ends the chunk after or before the position, and the next
chunk is examined from the next position on. -/
theorem countingRule_eq_some (cuts : countingRule config data start origin i = some cut) :
    cut.next.first = i + 1 ∧
      (config.minSize ≤ i - start ∧ cut.length = i - start + 1 ∧ cut.next.start = i + 1 ∨
        config.maxSize ≤ i - start ∧ cut.length = i - start ∧ cut.next.start = i) := by
  unfold countingRule at cuts
  split at cuts
  · next boundary =>
    obtain rfl := some.inj cuts
    exact ⟨rfl, .inl ⟨boundary.1, rfl, rfl⟩⟩
  · obtain ⟨full, rfl⟩ := maximumRule_eq_some cuts
    exact ⟨rfl, .inr ⟨full, rfl, rfl⟩⟩

/-- A counting loop cuts at the maximum size if it has not cut before. -/
theorem le_of_uncut (uncut : ∀ j, first ≤ j → j < i → countingRule config data start origin j = none)
    (entered : first ≤ start + config.maxSize) : i ≤ start + config.maxSize := by
  by_contra beyond
  have cut := uncut (start + config.maxSize) entered (Nat.lt_of_not_le beyond)
  unfold countingRule maximumRule at cut
  split at cut
  · contradiction
  · rw [if_pos (by omega)] at cut
    contradiction

variable (config data) in
theorem scanAt_eq (inside : origin ≤ i) (chunks : List (ℕ × ℕ)) (start : ℕ) :
    scanAt config data i ⟨chunks, start, countBefore config data origin i⟩ =
      match countingRule config data start origin i with
      | some cut => ⟨chunks ++ [(start, cut.length)], cut.next.start, 0⟩
      | none => ⟨chunks, start, countBefore config data origin (i + 1)⟩ := by
  rw [countBefore_succ inside]
  unfold scanAt countingRule maximumRule
  dsimp only
  split
  · rfl
  · split <;> rfl

theorem countingRule_advances (sensible : Sensible config) (origin : Entry → ℕ) (limit : ℕ)
    (cuts : nextCut (fun entry i => countingRule config data entry.start (origin entry) i) limit
      entry = some cut) :
    0 < cut.length ∧ cut.next.start = entry.start + cut.length ∧ cut.next.start ≤ limit := by
  obtain ⟨i, -, inside, at_, -⟩ := nextCut_eq_some_iff.mp cuts
  have minimum := sensible.minSize
  have maximum := sensible.maxSize
  rcases (countingRule_eq_some at_).2 with ⟨large, length, next⟩ | ⟨full, length, next⟩
  · omega
  · omega

theorem finalChunk_eq (chunks : List (ℕ × ℕ)) (start : ℕ) :
    finalChunk data chunks start =
      chunks ++ if start < data.length then [(start, data.length - start)] else [] := by
  unfold finalChunk
  split
  · rfl
  · exact (append_nil chunks).symm

/-- The rule does not cut the chunk before a position. -/
def Uncut (event : Entry → ℕ → Option Cut) (entry : Entry) (i : ℕ) : Prop :=
  ∀ j, entry.first ≤ j → j < i → event entry j = none

section
variable {event : Entry → ℕ → Option Cut} {entry : Entry} {i : ℕ} (quiet : Uncut event entry i)
include quiet

variable (data) in
/-- A chunk without a cut before the end of the buffer runs to the end. -/
theorem Uncut.exists_chain (ended : data.length ≤ i) (chunks : List (ℕ × ℕ)) :
    ∃ ranges, finalChunk data chunks entry.start = chunks ++ ranges ∧
      Chain event data.length entry ranges := by
  have uncut : nextCut event data.length entry = none := by
    apply nextCut_eq_none_iff.mpr
    intro j lower upper
    exact quiet j lower (upper.trans_le ended)
  rw [finalChunk_eq]
  by_cases open_ : entry.start < data.length
  · exact ⟨_, rfl, if_pos open_ ▸ .final uncut open_⟩
  · exact ⟨_, rfl, if_neg open_ ▸ .done uncut (Nat.le_of_not_lt open_)⟩

theorem Uncut.exists_chain_of_cut (after : entry.first ≤ i) (inside : i < data.length)
    (cuts : event entry i = some cut) {chunks found : List (ℕ × ℕ)}
    (later : ∃ ranges, found = chunks ++ [(entry.start, cut.length)] ++ ranges ∧
      Chain event data.length cut.next ranges) :
    ∃ ranges, found = chunks ++ ranges ∧ Chain event data.length entry ranges := by
  obtain ⟨ranges, rfl, chain⟩ := later
  refine ⟨(entry.start, cut.length) :: ranges, append_assoc .., .cut ?_ chain⟩
  exact nextCut_eq_some_iff.mpr ⟨i, after, inside, cuts, quiet⟩

theorem Uncut.extend {stop : ℕ} (more : ∀ j, i ≤ j → j < stop → event entry j = none) :
    Uncut event entry stop := by
  intro j lower upper
  rcases Nat.lt_or_ge j i with earlier | later
  · exact quiet j lower earlier
  · exact more j later upper

theorem Uncut.succ (uncut : event entry i = none) : Uncut event entry (i + 1) := by
  apply quiet.extend
  intro j lower upper
  exact (show j = i by omega) ▸ uncut

end

variable (config data) in
/-- The scalar loop from a position on, in a chunk without an earlier cut. -/
theorem foldl_scanAt_chain (count i : ℕ) (remaining : data.length - i = count) (entry : Entry)
    (inside : entry.first ≤ i)
    (quiet : Uncut (scalarRule config data) entry i)
    (chunks : List (ℕ × ℕ)) :
    let scan := (List.range' i count).foldl (fun scan i => scanAt config data i scan)
      ⟨chunks, entry.start, countBefore config data entry.first i⟩
    ∃ ranges, finalChunk data scan.chunks scan.chunkStart = chunks ++ ranges ∧
      Chain (scalarRule config data) data.length entry ranges := by
  induction count generalizing i entry chunks with
  | zero => exact quiet.exists_chain data (by omega) chunks
  | succ count ih =>
    intro scan
    have step := scanAt_eq config data inside chunks entry.start
    simp only [scan, range'_succ, foldl_cons, step]
    cases cuts : scalarRule config data entry i with
    | none =>
      rw [show countingRule config data entry.start entry.first i = none from cuts]
      exact ih (i + 1) (by omega) entry (by omega) (quiet.succ cuts) chunks
    | some cut =>
      rw [show countingRule config data entry.start entry.first i = some cut from cuts]
      have first := (countingRule_eq_some cuts).1
      have later := ih (i + 1) (by omega) cut.next first.le (fun j lower upper => by omega)
        (chunks ++ [(entry.start, cut.length)])
      rw [first, countBefore_self] at later
      exact quiet.exists_chain_of_cut inside (by omega) cuts later

variable (config data) in
theorem chunkBufferScalar_chain :
    Chain (scalarRule config data) data.length ⟨0, 1⟩ (chunkBufferScalar config data) := by
  obtain ⟨ranges, done, chain⟩ := foldl_scanAt_chain config data (data.length - 1) 1 rfl
    ⟨0, 1⟩ le_rfl (fun j lower upper => absurd lower (Nat.not_le.mpr upper)) []
  rw [countBefore_self] at done
  rw [chunkBufferScalar, done]
  exact chain

variable (config) in
/-- The chunk has its minimum size at most 16 positions after the first one that is not
skipped. -/
theorem minSize_le_neonOrigin (entry : Entry) (entered : entry.start ≤ entry.first) :
    config.minSize ≤ neonOrigin config entry - entry.start + 16 := by
  unfold neonOrigin
  omega

/-- Skipping stops before the chunk has its minimum size. -/
theorem neonOrigin_lt_minSize (entered : entry.start ≤ entry.first)
    (skips : entry.first < neonOrigin config entry) :
    neonOrigin config entry - entry.start < config.minSize := by
  unfold neonOrigin at skips ⊢
  omega

/-- What the NEON loop keeps at a position of a chunk: it is skipping blocks, or counting,
or the chunk will not reach its minimum size. -/
def NeonInvariant (config : SeqCdcConfig) (data : Bytes) (entry : Entry) (i consecutive : ℕ) :
    Prop :=
  data.length ≤ entry.start + config.minSize ∨
    (16 ∣ neonOrigin config entry - i ∧ i ≤ neonOrigin config entry ∧ consecutive = 0) ∨
    (neonOrigin config entry ≤ i ∧
      consecutive = countBefore config data (neonOrigin config entry) i)

variable (config data) in
theorem NeonInvariant.enter (entry : Entry) : NeonInvariant config data entry entry.first 0 :=
  .inr (.inl ⟨by simp [neonOrigin], Nat.le_add_right _ _, rfl⟩)

section
variable {entry : Entry} {i consecutive : ℕ} (entered : entry.start ≤ entry.first)
  (invariant : NeonInvariant config data entry i consecutive)
include entered invariant

theorem NeonInvariant.skip (skips : i - entry.start + 16 < config.minSize) :
    NeonInvariant config data entry (i + 16) 0 := by
  have origin := minSize_le_neonOrigin config entry entered
  rcases invariant with ends | ⟨⟨blocks, distance⟩, before, -⟩ | ⟨counting, -⟩
  · exact .inl ends
  · refine .inr (.inl ⟨⟨blocks - 1, ?_⟩, ?_, rfl⟩)
    · omega
    · omega
  · omega

/-- A position the NEON loop does not skip is examined by its rule. -/
theorem scanAt_neon (sensible : Sensible config) (after : entry.first ≤ i)
    (inside : i < data.length)
    (examined : ¬ (i - entry.start + 16 < config.minSize ∧ data.length - i ≥ 17))
    (chunks : List (ℕ × ℕ)) :
    (neonRule config data entry i = none ∧ ∃ counted,
      scanAt config data i ⟨chunks, entry.start, consecutive⟩ = ⟨chunks, entry.start, counted⟩ ∧
        NeonInvariant config data entry (i + 1) counted) ∨
    ∃ cut, neonRule config data entry i = some cut ∧
      scanAt config data i ⟨chunks, entry.start, consecutive⟩ =
        ⟨chunks ++ [(entry.start, cut.length)], cut.next.start, 0⟩ := by
  have minimum := sensible.minSize
  have maximum := sensible.maxSize
  by_cases tail : data.length ≤ entry.start + config.minSize
  · have short : i - entry.start < config.minSize := by omega
    refine .inl ⟨countingRule_of_short sensible short, countPair config data consecutive i, ?_,
      .inl tail⟩
    rw [scanAt, if_neg (by dsimp only; omega), if_neg (by dsimp only; omega)]
  · have counting : neonOrigin config entry ≤ i ∧
        consecutive = countBefore config data (neonOrigin config entry) i := by
      rcases invariant with ends | ⟨⟨blocks, distance⟩, before, none_⟩ | counting
      · exact absurd ends tail
      · rcases Nat.eq_or_lt_of_le before with same | skipping
        · exact ⟨same.ge, by rw [← same, countBefore_self, none_]⟩
        · have short := neonOrigin_lt_minSize entered (after.trans_lt skipping)
          omega
      · exact counting
    obtain ⟨after, rfl⟩ := counting
    have step := scanAt_eq config data after chunks entry.start
    cases cuts : neonRule config data entry i with
    | none =>
      rw [show countingRule config data entry.start (neonOrigin config entry) i = none
        from cuts] at step
      exact .inl ⟨rfl, _, step, .inr (.inr ⟨by omega, rfl⟩)⟩
    | some cut =>
      rw [show countingRule config data entry.start (neonOrigin config entry) i = some cut
        from cuts] at step
      exact .inr ⟨cut, rfl, step⟩

end

variable (data) in
/-- The NEON loop from a position on, in a chunk without an earlier cut. -/
theorem neonLoop_chain (sensible : Sensible config) (fuel i : ℕ)
    (enough : data.length - i ≤ fuel) (entry : Entry) (entered : entry.start ≤ entry.first)
    (after : entry.first ≤ i)
    (quiet : Uncut (neonRule config data) entry i)
    {consecutive : ℕ} (invariant : NeonInvariant config data entry i consecutive)
    (chunks : List (ℕ × ℕ)) :
    let scan := Neon.loop config data fuel i ⟨chunks, entry.start, consecutive⟩
    ∃ ranges, finalChunk data scan.chunks scan.chunkStart = chunks ++ ranges ∧
      Chain (neonRule config data) data.length entry ranges := by
  induction fuel generalizing i entry consecutive chunks with
  | zero => exact quiet.exists_chain data (by omega) chunks
  | succ fuel ih =>
    intro scan
    by_cases inside : i < data.length
    · simp only [scan, Neon.loop, if_pos inside]
      split
      · next skips =>
        refine ih (i + 16) (by omega) entry entered (by omega) (quiet.extend ?_)
          (invariant.skip entered skips.1) chunks
        intro j lower upper
        exact countingRule_of_short sensible (by omega)
      · next examined =>
        rcases scanAt_neon entered invariant sensible after inside examined chunks with
          ⟨uncut, counted, step, kept⟩ | ⟨cut, cuts, step⟩
        · rw [step]
          exact ih (i + 1) (by omega) entry entered (by omega) (quiet.succ uncut) kept chunks
        · rw [step]
          obtain ⟨first, starts⟩ := countingRule_eq_some cuts
          refine quiet.exists_chain_of_cut after inside cuts ?_
          exact ih (i + 1) (by omega) cut.next (by omega) first.le
            (fun j lower upper => by omega) (first ▸ .enter config data cut.next) _
    · simp only [scan, Neon.loop, if_neg inside]
      exact quiet.exists_chain data (Nat.le_of_not_lt inside) chunks

variable (data) in
theorem chunkBufferNeon_chain (sensible : Sensible config) :
    Chain (neonRule config data) data.length ⟨0, 1⟩ (Neon.chunkBufferNeon config data) := by
  obtain ⟨ranges, done, chain⟩ := neonLoop_chain data sensible data.length 1 (Nat.sub_le _ _)
    ⟨0, 1⟩ (Nat.zero_le _) le_rfl
    (fun j lower upper => absurd lower (Nat.not_le.mpr upper)) (.enter config data ⟨0, 1⟩) []
  rw [Neon.chunkBufferNeon, done]
  exact chain

/-- Without overflow checks the vector search does not panic and reports one of the 32
pairs. -/
theorem findConsecutiveOnes_release (mask : BitVec 32) (n : ℕ) :
    ∃ found, findConsecutiveOnes false mask n = .ok found ∧
      ∀ offset, found = some offset → offset ≤ 31 := by
  unfold findConsecutiveOnes Machine.shiftLeft
  by_cases none_ : n = 0
  · rw [if_pos none_]
    exact ⟨_, rfl, by simp⟩
  by_cases wide : n > 32
  · rw [if_neg none_, if_pos wide]
    exact ⟨_, rfl, by simp⟩
  · simp only [if_neg none_, if_neg wide, bind_eq]
    have bound (test : ℕ → Bool) (offset : ℕ)
        (found : ((List.range (32 - n + 1)).find? test).map (fun pos => pos + n - 1) =
          some offset) : offset ≤ 31 := by
      obtain ⟨pos, at_, rfl⟩ := map_eq_some_iff.mp found
      have inside := mem_range.mp (mem_of_find?_eq_some at_)
      omega
    split
    · exact ⟨_, rfl, bound _⟩
    · exact ⟨_, rfl, bound _⟩

/-- Without overflow checks the search at a position reports one of its 32 pairs, and
only where enough bytes remain. -/
theorem searchWindow_release (i : ℕ) :
    searchWindow config data false i = .ok (vectorBoundary config data i) ∧
      ∀ offset, vectorBoundary config data i = some offset →
        offset ≤ 31 ∧ data.length - i ≥ 33 := by
  have searched : ∃ found, searchWindow config data false i = .ok found ∧
      ∀ offset, found = some offset → offset ≤ 31 ∧ data.length - i ≥ 33 := by
    unfold searchWindow findBoundaryInWindow
    by_cases long : data.length - i ≥ 33
    · rw [if_pos long, if_neg (by rw [length_drop]; omega)]
      obtain ⟨found, ok, bound⟩ := findConsecutiveOnes_release
        (pairMask config.mode (data.drop i)) (config.seqLength - 1)
      exact ⟨found, ok, fun offset at_ => ⟨bound offset at_, long⟩⟩
    · rw [if_neg long]
      exact ⟨none, rfl, by simp⟩
  obtain ⟨found, ok, bound⟩ := searched
  have same : vectorBoundary config data i = found := by rw [vectorBoundary, ok]
  rw [same]
  exact ⟨ok, bound⟩

def avx2Next (config : SeqCdcConfig) (data : Bytes) (state : Avx2.State) (first : ℕ) : Avx2.State :=
  match avx2Rule config data ⟨state.chunkStart, first⟩ state.i with
  | some cut =>
    ⟨state.chunks ++ [(state.chunkStart, cut.length)], cut.next.start, cut.next.first⟩
  | none => { state with i := state.i + 1 }

variable (state : Avx2.State)

theorem enforceMaximum_eq :
    enforceMaximum config state =
      match maximumRule config state.chunkStart state.i with
      | some cut =>
        ⟨state.chunks ++ [(state.chunkStart, cut.length)], cut.next.start, cut.next.first⟩
      | none => { state with i := state.i + 1 } := by
  unfold enforceMaximum maximumRule
  dsimp only
  split <;> rfl

theorem turn_release (first : ℕ) :
    turn config data false state =
      if state.i - state.chunkStart + 32 < config.minSize ∧ data.length - state.i ≥ 33 then
        .ok { state with i := state.i + 32 }
      else .ok (avx2Next config data state first) := by
  unfold turn
  split
  · rfl
  · unfold detectBoundary avx2Next avx2Rule
    dsimp only
    by_cases near : state.i - state.chunkStart ≥ config.minSize ∧
        data.length - state.i ≥ config.seqLength
    · rw [if_pos near, if_pos near, (searchWindow_release state.i).1]
      cases found : vectorBoundary config data state.i with
      | some offset =>
        simp only [bind_eq, ok_bind]
        rw [if_pos (by omega)]
        rfl
      | none =>
        by_cases run : isBoundary config data state.i = true
        · simp only [bind_eq, ok_bind, scalarFallback, if_pos run]
        · simp only [bind_eq, ok_bind, scalarFallback, if_neg run]
          rw [enforceMaximum_eq]
    · rw [if_neg near, if_neg near, ← enforceMaximum_eq]
      rfl

variable (sensible : Sensible config)
include sensible

theorem avx2Rule_of_short (short : i - entry.start < config.minSize) :
    avx2Rule config data entry i = none := by
  have maximum := sensible.maxSize
  rw [avx2Rule, if_neg (by omega), maximumRule, if_neg (by omega)]

omit sensible in
/-- What a cut of the AVX2 loop can be: after a pair the vector search reports, one byte
before the end of a run it does not report, or at the maximum size. -/
theorem avx2Rule_eq_some (cuts : avx2Rule config data entry i = some cut) :
    (∃ offset, vectorBoundary config data i = some offset ∧ config.minSize ≤ i - entry.start ∧
        cut = ⟨i + offset - entry.start + 1, ⟨i + offset + 1, i + offset + 1⟩⟩) ∨
      (vectorBoundary config data i = none ∧ isBoundary config data i = true ∧
        config.minSize ≤ i - entry.start ∧ config.seqLength ≤ data.length - i ∧
        cut = ⟨i + config.seqLength - 1 - entry.start,
          ⟨i + config.seqLength, i + config.seqLength⟩⟩) ∨
      config.maxSize ≤ i - entry.start ∧ cut = ⟨i - entry.start, ⟨i, i + 1⟩⟩ := by
  unfold avx2Rule at cuts
  split at cuts
  · next near =>
    cases found : vectorBoundary config data i with
    | some offset =>
      rw [found] at cuts
      exact .inl ⟨offset, rfl, near.1, (some.inj cuts).symm⟩
    | none =>
      rw [found] at cuts
      dsimp only at cuts
      split at cuts
      · next run => exact .inr (.inl ⟨rfl, run, near.1, near.2, (some.inj cuts).symm⟩)
      · exact .inr (.inr (maximumRule_eq_some cuts))
  · exact .inr (.inr (maximumRule_eq_some cuts))

theorem avx2Rule_advances :
    Advances (avx2Rule config data) data.length := by
  intro entry cut cuts
  obtain ⟨i, -, inside, at_, -⟩ := nextCut_eq_some_iff.mp cuts
  have minimum := sensible.minSize
  have maximum := sensible.maxSize
  have sequence := sensible.seqLength
  rcases avx2Rule_eq_some at_ with ⟨offset, found, large, rfl⟩ | ⟨-, -, large, room, rfl⟩ |
    ⟨full, rfl⟩
  · obtain ⟨small, long⟩ := (searchWindow_release i).2 offset found
    dsimp only
    omega
  · dsimp only
    omega
  · dsimp only
    omega

/-- Every cut of the AVX2 loop is examined from a later position on. -/
theorem lt_first_of_avx2Rule (cuts : avx2Rule config data entry i = some cut) :
    i < cut.next.first ∧ cut.next.start ≤ cut.next.first := by
  have sequence := sensible.seqLength
  rcases avx2Rule_eq_some cuts with ⟨offset, -, -, rfl⟩ | ⟨-, -, -, -, rfl⟩ | ⟨-, rfl⟩
  · dsimp only
    omega
  · dsimp only
    omega
  · dsimp only
    omega

variable (data) in
/-- The AVX2 loop without overflow checks from a position on, in a chunk without an
earlier cut. -/
theorem avx2Loop_chain (fuel i : ℕ) (enough : data.length - i ≤ fuel) (entry : Entry)
    (after : entry.first ≤ i) (quiet : Uncut (avx2Rule config data) entry i) (chunks : List (ℕ × ℕ)) :
    ∃ state ranges, loop config data false fuel ⟨chunks, entry.start, i⟩ = .ok state ∧
      finalChunk data state.chunks state.chunkStart = chunks ++ ranges ∧
      Chain (avx2Rule config data) data.length entry ranges := by
  induction fuel generalizing i entry chunks with
  | zero =>
    obtain ⟨ranges, done, chain⟩ := quiet.exists_chain data (by omega) chunks
    exact ⟨_, ranges, rfl, done, chain⟩
  | succ fuel ih =>
    by_cases inside : i < data.length
    · rw [loop, if_pos inside, turn_release _ entry.first]
      dsimp only
      split
      · next skips =>
        refine ih (i + 32) (by omega) entry (by omega) (quiet.extend ?_) chunks
        intro j lower upper
        exact avx2Rule_of_short sensible (by omega)
      · rw [ok_bind, avx2Next]
        dsimp only
        cases cuts : avx2Rule config data entry i with
        | none =>
          exact ih (i + 1) (by omega) entry (by omega) (quiet.succ cuts) chunks
        | some cut =>
          obtain ⟨later, -⟩ := lt_first_of_avx2Rule sensible cuts
          obtain ⟨state, ranges, runs, done, chain⟩ := ih cut.next.first (by omega) cut.next
            le_rfl (fun j lower upper => by omega) (chunks ++ [(entry.start, cut.length)])
          obtain ⟨all, done, chain⟩ := quiet.exists_chain_of_cut after inside cuts
            ⟨ranges, done, chain⟩
          exact ⟨state, all, runs, done, chain⟩
    · obtain ⟨ranges, done, chain⟩ :=
        quiet.exists_chain data (Nat.le_of_not_lt inside) chunks
      exact ⟨_, ranges, by rw [loop, if_neg inside], done, chain⟩

variable (data) in
theorem chunkBufferAvx2_chain :
    ∃ ranges, chunkBufferAvx2 config data false = .ok ranges ∧
      Chain (avx2Rule config data) data.length ⟨0, 0⟩ ranges := by
  obtain ⟨state, ranges, runs, done, chain⟩ := avx2Loop_chain data sensible data.length 0
    (Nat.sub_le _ _) ⟨0, 0⟩ le_rfl (fun j lower upper => absurd upper (Nat.not_lt.mpr lower)) []
  refine ⟨ranges, ?_, chain⟩
  rw [chunkBufferAvx2, runs]
  exact congrArg Outcome.ok done

end Warp.Io.Simd
