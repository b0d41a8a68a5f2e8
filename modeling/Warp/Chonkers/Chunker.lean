import Warp.Chonkers.Balancing
import Warp.Chonkers.Caterpillar
import Warp.Chonkers.Diffbit

/-! # The chunker

Starting with a boundary at every byte, every layer passes the boundaries through the three phases.
An accepted configuration whose layer sizes fit a word partitions every nonempty byte string into
chunks up to the maximum of the last layer, unless the fraction for the maximum is not a number or,
with overflow checks, a period product does not fit a word (`chunking_partitions_iff`).
-/

namespace Warp.Chonkers

open Caterpillar ChonkersConfig Outcome Balancing Bytes

open Boundaries
open List hiding ranges

variable (overflowChecks : Bool) (hash : Bytes → ChunkId) (config : ChonkersConfig) (data : Bytes)

def processPhases (layerConfig : LayerConfig) (boundaries : List ℕ) : Outcome Error (List ℕ) :=
  (Caterpillar.process overflowChecks data layerConfig
    (Balancing.process hash data layerConfig boundaries)).bind
      (Diffbit.process hash data layerConfig)

def processLayer (layerIdx : ℕ) (boundaries : List ℕ) : Outcome Error (List ℕ) :=
  (config.layer overflowChecks layerIdx).bind fun layerConfig =>
    processPhases overflowChecks hash data layerConfig boundaries

def processLayers : List ℕ → List ℕ → Outcome Error (List ℕ)
  | [], boundaries => .ok boundaries
  | layerIdx :: rest, boundaries =>
    (processLayer overflowChecks hash config data layerIdx boundaries).bind (processLayers rest)

def chunkBoundaries : Outcome Error (List ℕ) :=
  if data.isEmpty then .ok [0]
  else processLayers overflowChecks hash config data (List.range config.numLayers)
    (List.range (data.length + 1))

def chunkOfRange (range : (ℕ × ℕ) × ℕ) : Outcome Error Chunk :=
  if range.1.1 ≤ range.1.2 ∧ range.1.2 ≤ data.length then
    .ok (Chunk.new hash range.2 range.1.1 (Bytes.slice data range.1.1 range.1.2))
  else .panic

def boundariesToChunks (boundaries : List ℕ) : Outcome Error (List Chunk) :=
  if boundaries.length < 2 then .ok []
  else Outcome.forEach (chunkOfRange hash data) (ranges boundaries).zipIdx

def chunk : Outcome Error (List Chunk) :=
  if data.isEmpty then .ok []
  else do
    let boundaries ← processLayers overflowChecks hash config data (List.range config.numLayers)
      (List.range (data.length + 1))
    boundariesToChunks hash data boundaries

/-- The boundaries before a layer, in a build without overflow checks. -/
def beforeLayer : ℕ → List ℕ
  | 0 => List.range (data.length + 1)
  | layerIdx + 1 =>
    match processLayer false hash config data layerIdx (beforeLayer layerIdx) with
    | .ok boundaries => boundaries
    | _ => []

/-- The caterpillar phase of a layer comes to a period product that does not fit a
word. -/
def PeriodOverflow (layerIdx : ℕ) : Prop :=
  Caterpillar.Overflows data (config.layerConfig layerIdx)
    (Balancing.process hash data (config.layerConfig layerIdx)
      (beforeLayer hash config data layerIdx))

def chunksOf (boundaries : List ℕ) : List Chunk :=
  (ranges boundaries).zipIdx.map fun range =>
    Chunk.new hash range.2 range.1.1 (Bytes.slice data range.1.1 range.1.2)

variable {overflowChecks hash config data}

theorem partitions_range (length : ℕ) : Partitions length (List.range (length + 1)) := by
  refine ⟨by simp [head?_range], by simp [getLast?_range], ?_⟩
  exact pairwise_lt_range.isChain

section
variable {boundaries : List ℕ} (partitions : Partitions data.length boundaries)
include partitions

theorem boundariesToChunks_eq (nonempty : 0 < data.length) :
    boundariesToChunks hash data boundaries = .ok (chunksOf hash data boundaries) := by
  have inside (range : (ℕ × ℕ) × ℕ) (member : range ∈ (ranges boundaries).zipIdx) :
      chunkOfRange hash data range =
        .ok (Chunk.new hash range.2 range.1.1 (slice data range.1.1 range.1.2)) := by
    have bounds := partitions.range_le (fst_mem_of_mem_zipIdx member)
    exact if_pos ⟨bounds.1.le, bounds.2⟩
  obtain ⟨next, rest, rfl⟩ := partitions.eq_cons_cons nonempty
  rw [boundariesToChunks, if_neg (by simp)]
  apply (forEach_eq_ok_iff ..).mpr
  rw [chunksOf, forall₂_map_right_iff, forall₂_same]
  exact inside

theorem length_slice_of_mem_ranges {range : ℕ × ℕ} (member : range ∈ ranges boundaries) :
    (slice data range.1 range.2).length = range.2 - range.1 := by
  have bounds := partitions.range_le member
  simp only [slice, length_take, length_drop]
  omega

theorem flatten_chunksOf :
    ((chunksOf hash data boundaries).map fun chunk =>
      slice data chunk.offset (chunk.offset + chunk.length)).flatten = data := by
  have parts : ((chunksOf hash data boundaries).map fun chunk =>
      slice data chunk.offset (chunk.offset + chunk.length)) =
        (ranges boundaries).map fun range => slice data range.1 range.2 := by
    rw [chunksOf, map_map]
    calc _ = (ranges boundaries).zipIdx.map
          ((fun range => slice data range.1 range.2) ∘ Prod.fst) := ?_
      _ = _ := by rw [← map_map, zipIdx_map_fst]
    apply map_congr_left
    intro range member
    have bounds := partitions.range_le (fst_mem_of_mem_zipIdx member)
    simp only [Function.comp_apply, Chunk.new]
    rw [length_slice_of_mem_ranges partitions (fst_mem_of_mem_zipIdx member),
      Nat.add_sub_cancel' bounds.1.le]
  rw [parts]
  exact partitions.flatten_slices

theorem map_length_chunksOf :
    (chunksOf hash data boundaries).map Chunk.length =
      (ranges boundaries).map fun range => range.2 - range.1 := by
  rw [chunksOf, map_map]
  calc _ = (ranges boundaries).zipIdx.map ((fun range => range.2 - range.1) ∘ Prod.fst) := ?_
    _ = _ := by rw [← map_map, zipIdx_map_fst]
  apply map_congr_left
  intro range member
  exact length_slice_of_mem_ranges partitions (fst_mem_of_mem_zipIdx member)

end

section Phases
variable {layerConfig : LayerConfig} {boundaries : List ℕ}

/-- Where no product overflows, the phases turn a partition into one with chunks up to a
positive maximum, the same in every build. -/
theorem processPhases_eq_ok (partitions : Partitions data.length boundaries)
    (nonempty : 0 < data.length) (positive : 0 < layerConfig.maxSize)
    (fits : ¬ (overflowChecks = true ∧ Caterpillar.Overflows data layerConfig
      (process hash data layerConfig boundaries))) :
    ∃ result, processPhases overflowChecks hash data layerConfig boundaries = .ok result ∧
      processPhases false hash data layerConfig boundaries = .ok result ∧
      Partitions data.length result ∧ result.IsChain (Diffbit.Within layerConfig.maxSize) := by
  have balanced := partitions.coarsen (coarsens_process hash data layerConfig boundaries)
  obtain ⟨collapsed, released⟩ := exists_process_eq data layerConfig
    (process hash data layerConfig boundaries)
  have collapses : Caterpillar.process overflowChecks data layerConfig
      (process hash data layerConfig boundaries) = .ok collapsed := by
    cases overflowChecks with
    | false => exact released
    | true =>
      rw [← released]
      exact (process_checked _).2 fun overflow => fits ⟨rfl, overflow⟩
  obtain ⟨result, merged, kept, within⟩ := Diffbit.process_eq_ok hash data positive nonempty
    (balanced.coarsen (coarsens_process collapses))
  refine ⟨result, ?_, ?_, kept, within⟩
  · rw [processPhases, collapses]
    exact merged
  · rw [processPhases, released]
    exact merged

theorem processPhases_eq_panic (overflow : Caterpillar.Overflows data layerConfig
    (process hash data layerConfig boundaries)) :
    processPhases true hash data layerConfig boundaries = .panic := by
  rw [processPhases, (process_checked _).1 overflow]
  rfl

theorem processPhases_eq_panic_of_zero (partitions : Partitions data.length boundaries)
    (nonempty : 0 < data.length) (zero : layerConfig.maxSize = 0) :
    processPhases overflowChecks hash data layerConfig boundaries = .panic := by
  have balanced := partitions.coarsen (coarsens_process hash data layerConfig boundaries)
  rw [processPhases]
  cases collapses : Caterpillar.process overflowChecks data layerConfig
      (process hash data layerConfig boundaries) with
  | ok collapsed =>
    exact Diffbit.process_eq_panic hash data zero nonempty
      (balanced.coarsen (coarsens_process collapses))
  | error failure => exact absurd collapses (process_ne_error _ _)
  | panic => rfl

end Phases

section Layers
variable (valid : config.validate = .ok ()) (fit : config.LayerSizesFit)
  (nonempty : 0 < data.length)
include valid fit

variable {layerIdx : ℕ}

theorem processLayer_eq (inside : layerIdx < config.numLayers) (boundaries : List ℕ) :
    processLayer overflowChecks hash config data layerIdx boundaries =
      processPhases overflowChecks hash data (config.layerConfig layerIdx) boundaries := by
  rw [processLayer, layer_eq valid fit _ inside]
  rfl

include nonempty

theorem processLayers_eq_panic_of_isNaN (noNumber : config.maxSizeRatio.isNaN = true) :
    processLayers overflowChecks hash config data (List.range config.numLayers)
      (List.range (data.length + 1)) = .panic := by
  obtain ⟨⟨some_, -⟩, -⟩ := validate_eq_ok_iff.mp valid
  have inside : 0 < config.numLayers := Nat.pos_of_ne_zero some_
  have zero : (config.layerConfig 0).maxSize = 0 := by
    have positive := (config.maxSize_pos_iff valid fit inside).not.mpr (by rw [noNumber]; decide)
    omega
  rw [range_eq_range', ← Nat.succ_pred_eq_of_pos inside, range'_succ, processLayers,
    processLayer_eq valid fit inside,
    processPhases_eq_panic_of_zero (partitions_range data.length) nonempty zero]
  rfl

variable (number : config.maxSizeRatio.isNaN = false)
include number

/-- What the layers leave are partitions, with chunks up to the maximum of the layer. -/
theorem partitions_beforeLayer (inside : layerIdx ≤ config.numLayers) :
    Partitions data.length (beforeLayer hash config data layerIdx) ∧
      ∀ last, layerIdx = last + 1 → (beforeLayer hash config data layerIdx).IsChain
        (Diffbit.Within (config.layerConfig last).maxSize) := by
  induction layerIdx with
  | zero => exact ⟨partitions_range data.length, fun last absurd => by omega⟩
  | succ layerIdx ih =>
    have positive := (config.maxSize_pos_iff valid fit inside).mpr number
    obtain ⟨result, released, -, kept, within⟩ := processPhases_eq_ok (ih (by omega)).1 nonempty
      positive (show ¬ (false = true ∧ _) by simp)
    rw [beforeLayer, processLayer_eq valid fit inside, released]
    refine ⟨kept, fun last same => ?_⟩
    obtain rfl : layerIdx = last := by omega
    exact within

theorem processLayer_beforeLayer (inside : layerIdx < config.numLayers)
    (fits : ¬ (overflowChecks = true ∧ PeriodOverflow hash config data layerIdx)) :
    processLayer overflowChecks hash config data layerIdx (beforeLayer hash config data layerIdx) =
      .ok (beforeLayer hash config data (layerIdx + 1)) := by
  have positive := (config.maxSize_pos_iff valid fit inside).mpr number
  obtain ⟨result, passed, released, -⟩ := processPhases_eq_ok
    (partitions_beforeLayer valid fit nonempty number inside.le).1 nonempty positive fits
  rw [beforeLayer, processLayer_eq valid fit inside, processLayer_eq valid fit inside, passed,
    released]

theorem processLayers_eq_ok {first count : ℕ} (inside : first + count ≤ config.numLayers)
    (fits : ∀ idx, first ≤ idx → idx < first + count →
      ¬ (overflowChecks = true ∧ PeriodOverflow hash config data idx)) :
    processLayers overflowChecks hash config data (List.range' first count)
      (beforeLayer hash config data first) =
        .ok (beforeLayer hash config data (first + count)) := by
  induction count generalizing first with
  | zero => rfl
  | succ count ih =>
    rw [range'_succ, processLayers, processLayer_beforeLayer valid fit nonempty number
      (by omega) (fits first le_rfl (by omega)), ok_bind,
      ih (by omega) fun idx lower upper => fits idx (by omega) (by omega),
      Nat.add_right_comm first 1 count, Nat.add_assoc]

theorem processLayers_eq_panic {first count idx : ℕ} (inside : first + count ≤ config.numLayers)
    (after : first ≤ idx) (before : idx < first + count)
    (overflow : PeriodOverflow hash config data idx) :
    processLayers true hash config data (List.range' first count)
      (beforeLayer hash config data first) = .panic := by
  induction count generalizing first with
  | zero => omega
  | succ count ih =>
    rw [range'_succ, processLayers]
    by_cases here : PeriodOverflow hash config data first
    · rw [processLayer_eq valid fit (by omega), processPhases_eq_panic here]
      rfl
    · rw [processLayer_beforeLayer valid fit nonempty number (by omega) fun both => here both.2,
        ok_bind]
      have later : first ≠ idx := by
        rintro rfl
        exact here overflow
      exact ih (by omega) (by omega) (by omega)

end Layers

variable (hash overflowChecks) in
/-- **Partition within the maximum.** For every accepted configuration whose layer sizes
fit a word, every nonempty byte string and every hash function: the chunker returns a
strictly increasing list of boundaries from zero to the length, at most the last layer's
maximum apart, and the chunks of these ranges, which hold the data in order, if and only
if the fraction for the maximum is a number and, with overflow checks, no layer's
caterpillar phase comes to a period product that does not fit a word. -/
theorem chunking_partitions_iff (valid : config.validate = .ok ()) (fit : config.LayerSizesFit)
    (nonempty : data ≠ []) :
    (∃ boundaries, chunkBoundaries overflowChecks hash config data = .ok boundaries ∧
      Partitions data.length boundaries ∧
      boundaries.IsChain (Diffbit.Within (config.layerConfig (config.numLayers - 1)).maxSize) ∧
      chunk overflowChecks hash config data = .ok (chunksOf hash data boundaries) ∧
      ((chunksOf hash data boundaries).map fun chunk =>
        Bytes.slice data chunk.offset (chunk.offset + chunk.length)).flatten = data) ↔
    config.maxSizeRatio.isNaN = false ∧
      (overflowChecks = true → ∀ layerIdx < config.numLayers,
        ¬ PeriodOverflow hash config data layerIdx) := by
  have positive := length_pos_iff.mpr nonempty
  obtain ⟨⟨some_, -⟩, -⟩ := validate_eq_ok_iff.mp valid
  have shown : data.isEmpty = false := by simpa using nonempty
  rw [chunkBoundaries, chunk, shown, range_eq_range']
  simp only [Bool.false_eq_true, if_false, bind_eq]
  constructor
  · rintro ⟨boundaries, returned, -⟩
    have number : config.maxSizeRatio.isNaN = false := by
      by_contra noNumber
      rw [← range_eq_range', processLayers_eq_panic_of_isNaN valid fit positive
        (Bool.not_eq_false _ ▸ noNumber)] at returned
      contradiction
    refine ⟨number, ?_⟩
    rintro rfl layerIdx inside overflow
    have panics := processLayers_eq_panic valid fit positive number (Nat.zero_add _).le
      (Nat.zero_le _) (by omega) overflow
    rw [beforeLayer] at panics
    rw [panics] at returned
    contradiction
  · rintro ⟨number, fits⟩
    have returned := processLayers_eq_ok valid fit positive number (Nat.zero_add _).le
      fun idx _ upper both => fits both.1 idx (by omega) both.2
    rw [beforeLayer, Nat.zero_add] at returned
    obtain ⟨kept, within⟩ := partitions_beforeLayer valid fit positive number le_rfl
    refine ⟨_, returned, kept, within _ (by omega), ?_, flatten_chunksOf kept⟩
    rw [returned]
    exact boundariesToChunks_eq kept positive

def zeroByteHash (data : Bytes) : ChunkId :=
  if data = [0] then digest 0x13e292f5d0250251c1b5274da787cd6d7336a0af356e884cf1611bf1dfde3a2d
  else digest 0

/-- One layer of chunks from 1 to 64 bytes, without periods in less than 256 bytes. -/
def plainConfig : ChonkersConfig :=
  { ChonkersConfig.default with
    numLayers := 1, baseTargetSize := 64, layerMultiplier := 2
    minSizeRatio := 0.0078125, maxSizeRatio := 1.01, minRepetitions := 4 }

/-- 201 zeros make several chunks, which are put together to them again. -/
theorem chunking_partitions_iff_zeros :
    plainConfig.validate = .ok () ∧ plainConfig.LayerSizesFit ∧
      ∃ boundaries, chunkBoundaries true zeroByteHash plainConfig (replicate 201 0) =
          .ok boundaries ∧
        Partitions 201 boundaries ∧ boundaries.IsChain (Diffbit.Within 64) ∧
        chunk true zeroByteHash plainConfig (replicate 201 0) =
          .ok (chunksOf zeroByteHash (replicate 201 0) boundaries) ∧
        ((chunksOf zeroByteHash (replicate 201 0) boundaries).map fun chunk =>
          Bytes.slice (replicate 201 0) chunk.offset (chunk.offset + chunk.length)).flatten =
            replicate 201 0 := by
  have fit : plainConfig.LayerSizesFit := by
    unfold ChonkersConfig.LayerSizesFit
    decide
  refine ⟨rfl, fit, (chunking_partitions_iff true zeroByteHash rfl fit
    (cons_ne_nil 0 (replicate 200 0))).mpr ⟨rfl, ?_⟩⟩
  rintro - layerIdx inside ⟨-, overflow⟩
  obtain rfl : layerIdx = 0 := Nat.lt_one_iff.mp inside
  rcases overflow with large | ⟨long, -⟩
  · exact absurd large (by decide)
  · rw [length_cons, length_replicate] at long
    exact absurd long (by decide)

/-- The default configuration with something that is not a number for the maximum. -/
def unboundedConfig : ChonkersConfig := { ChonkersConfig.default with maxSizeRatio := 0.0 / 0.0 }

/-- `validate` accepts a maximum that is not a number, and chunking a single byte with it
divides by zero. -/
theorem accepted_configuration_panics :
    unboundedConfig.validate = .ok () ∧ unboundedConfig.LayerSizesFit ∧
      (unboundedConfig.layerConfig 0).maxSize = 0 ∧
      chunkBoundaries false zeroByteHash unboundedConfig [0] = .panic ∧
      chunk false zeroByteHash unboundedConfig [0] = .panic := by
  refine ⟨rfl, ?_, rfl, rfl, rfl⟩
  unfold ChonkersConfig.LayerSizesFit
  decide

end Warp.Chonkers
