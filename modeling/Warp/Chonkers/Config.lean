import Warp.Foundation.Binary64
import Warp.Foundation.Bytes
import Warp.Foundation.Machine

/-! # Chunks and the configuration of the chunker

A chunk is identified by the hash of its content, which is a parameter. Every layer has a target
size, which grows by a factor from layer to layer, and bounds that are floating-point fractions of
it; what is not a number scales a word to zero.

An accepted configuration whose layer sizes fit a word gives every layer a positive maximum, unless
the fraction is not a number (`ChonkersConfig.maxSize_pos_iff`): `validate` takes a failed
comparison for a success.
-/

namespace Warp.Chonkers

open Outcome Machine

section Chunks

abbrev ChunkId := Vector UInt8 32

abbrev ChunkWeight := ℕ

namespace ChunkWeight

def max : ChunkWeight := 2 ^ 64 - 1

def fromHash (hash : ChunkId) : ChunkWeight := Bytes.leValue (hash.toList.take 8)

theorem fromHash_lt (hash : ChunkId) : fromHash hash < 2 ^ 64 := by
  have bound := Bytes.leValue_lt (hash.toList.take 8)
  rwa [List.length_take, Vector.length_toList] at bound

variable (hash : Bytes → ChunkId)

def fromData (data : Bytes) : ChunkWeight := fromHash (hash data)

/-- Compute weight for a boundary from the bytes around it; two phases do so alike. -/
def ofBoundary (offset : ℕ) (data : Bytes) : ChunkWeight :=
  fromData hash (Bytes.slice data (offset - 4) (min (offset + 4) data.length))

end ChunkWeight

structure Chunk where
  id : ChunkId
  weight : ChunkWeight
  index : ℕ
  offset : ℕ
  length : ℕ
  layer : UInt8
  flags : UInt8

variable (hash : Bytes → ChunkId)

def Chunk.new (index offset : ℕ) (data : Bytes) : Chunk where
  id := hash data
  weight := ChunkWeight.fromHash (hash data)
  index := index
  offset := offset
  length := data.length
  layer := 0
  flags := 0

def digest (value : ℕ) : ChunkId := ⟨(Bytes.leBytes 32 value).toArray, by simp⟩

end Chunks

inductive Error where
  | invalidConfig (message : String)
  | internal (message : String)

structure ChonkersConfig where
  numLayers : ℕ
  baseTargetSize : ℕ
  layerMultiplier : ℕ
  minSizeRatio : Float
  maxSizeRatio : Float
  minPeriodLength : ℕ
  minRepetitions : ℕ

structure LayerConfig where
  index : ℕ
  targetSize : ℕ
  minSize : ℕ
  maxSize : ℕ
  minPeriodLength : ℕ
  minRepetitions : ℕ

namespace ChonkersConfig

def default : ChonkersConfig where
  numLayers := 3
  baseTargetSize := 4096
  layerMultiplier := 4
  minSizeRatio := 0.25
  maxSizeRatio := 4.0
  minPeriodLength := 64
  minRepetitions := 3

/-- The checks that `new` and `validate` share. -/
def checkSizes (numLayers baseTargetSize layerMultiplier : ℕ) : Outcome Error Unit := do
  Outcome.require (numLayers ≠ 0) (.invalidConfig "num_layers must be > 0")
  Outcome.require (64 ≤ baseTargetSize) (.invalidConfig "base_target_size must be >= 64")
  Outcome.require (2 ≤ layerMultiplier) (.invalidConfig "layer_multiplier must be >= 2")

def new (numLayers baseTargetSize layerMultiplier : ℕ) : Outcome Error ChonkersConfig := do
  checkSizes numLayers baseTargetSize layerMultiplier
  .ok { default with numLayers, baseTargetSize, layerMultiplier }

def smallFiles : ChonkersConfig := { default with numLayers := 2, baseTargetSize := 2048 }

def mediumFiles : ChonkersConfig := default

def largeFiles : ChonkersConfig := { default with numLayers := 4, baseTargetSize := 8192 }

def backup : ChonkersConfig := { default with baseTargetSize := 16384, minPeriodLength := 128 }

/-- A size scaled by a fraction and truncated; out of range it saturates. -/
def scale (size : ℕ) (ratio : Float) : ℕ := ((UInt64.ofNat size).toFloat * ratio).toUInt64.toNat

variable (config : ChonkersConfig)

def layerOfTarget (layerIdx targetSize : ℕ) : LayerConfig where
  index := layerIdx
  targetSize := targetSize
  minSize := max (scale targetSize config.minSizeRatio) 1
  maxSize := scale targetSize config.maxSizeRatio
  minPeriodLength := config.minPeriodLength
  minRepetitions := config.minRepetitions

def layer (overflowChecks : Bool) (layerIdx : ℕ) : Outcome Error LayerConfig := do
  let factor ← Machine.power overflowChecks config.layerMultiplier (layerIdx % 2 ^ 32)
  let targetSize ← Machine.multiply overflowChecks config.baseTargetSize factor
  .ok (config.layerOfTarget layerIdx targetSize)

def validate : Outcome Error Unit := do
  checkSizes config.numLayers config.baseTargetSize config.layerMultiplier
  Outcome.require (¬ (config.minSizeRatio ≤ 0.0 ∨ config.minSizeRatio ≥ 1.0))
    (.invalidConfig "min_size_ratio must be in (0, 1)")
  Outcome.require (¬ config.maxSizeRatio ≤ 1.0) (.invalidConfig "max_size_ratio must be > 1")

/-- The target sizes of all layers fit a machine word. -/
def LayerSizesFit : Prop :=
  ∀ idx < config.numLayers, config.baseTargetSize * config.layerMultiplier ^ idx < 2 ^ 64

/-- The configuration of a layer whose size does not overflow. -/
def layerConfig (layerIdx : ℕ) : LayerConfig :=
  config.layerOfTarget layerIdx (config.baseTargetSize * config.layerMultiplier ^ layerIdx)

variable {config} {done : Unit} {layerIdx : ℕ}

theorem checkSizes_eq_ok_iff {numLayers baseTargetSize layerMultiplier : ℕ} :
    checkSizes numLayers baseTargetSize layerMultiplier = .ok done ↔
      numLayers ≠ 0 ∧ 64 ≤ baseTargetSize ∧ 2 ≤ layerMultiplier := by
  simp [checkSizes, bind_eq_ok_iff]

theorem validate_eq_ok_iff :
    config.validate = .ok done ↔
      (config.numLayers ≠ 0 ∧ 64 ≤ config.baseTargetSize ∧ 2 ≤ config.layerMultiplier) ∧
      ¬ (config.minSizeRatio ≤ 0.0 ∨ config.minSizeRatio ≥ 1.0) ∧
      ¬ config.maxSizeRatio ≤ 1.0 := by
  simp [validate, bind_eq, bind_eq_ok_iff, checkSizes_eq_ok_iff, require_eq_ok_iff]

/-- A configuration with the default fractions is accepted if its sizes are. -/
theorem validate_of_default_ratios (minimum : config.minSizeRatio = default.minSizeRatio)
    (maximum : config.maxSizeRatio = default.maxSizeRatio)
    (sizes : checkSizes config.numLayers config.baseTargetSize config.layerMultiplier = .ok ()) :
    config.validate = .ok () := by
  refine validate_eq_ok_iff.mpr ⟨checkSizes_eq_ok_iff.mp sizes, ?_, ?_⟩
  · rw [minimum]
    decide
  · rw [maximum]
    decide

theorem validate_new {numLayers baseTargetSize layerMultiplier : ℕ}
    (created : new numLayers baseTargetSize layerMultiplier = .ok config) :
    config.validate = .ok () := by
  obtain ⟨_, sizes, same⟩ := bind_eq_ok_iff.mp created
  obtain rfl := Outcome.ok.inj same
  exact validate_of_default_ratios rfl rfl sizes

theorem validate_presets {preset : ChonkersConfig}
    (member : preset ∈ [default, smallFiles, mediumFiles, largeFiles, backup]) :
    preset.validate = .ok () := by
  simp only [List.mem_cons, List.not_mem_nil, or_false] at member
  rcases member with rfl | rfl | rfl | rfl | rfl
  all_goals exact validate_of_default_ratios rfl rfl rfl

theorem layer_eq (valid : config.validate = .ok done) (fit : config.LayerSizesFit)
    (overflowChecks : Bool) (inside : layerIdx < config.numLayers) :
    config.layer overflowChecks layerIdx = .ok (config.layerConfig layerIdx) := by
  obtain ⟨⟨-, base, multiplier⟩, -⟩ := validate_eq_ok_iff.mp valid
  have size := fit layerIdx inside
  have factor : config.layerMultiplier ^ layerIdx < 2 ^ 64 :=
    (Nat.le_mul_of_pos_left _ (by omega)).trans_lt size
  have small : layerIdx < 64 :=
    (Nat.pow_lt_pow_iff_right (by decide)).mp ((Nat.pow_le_pow_left multiplier _).trans_lt factor)
  rw [layer, Nat.mod_eq_of_lt (small.trans (by decide)), Machine.power, fit_of_lt factor]
  simp only [bind_eq, ok_bind, Machine.multiply]
  rw [fit_of_lt size]
  rfl

variable (config) in
theorem exists_layer_eq (layerIdx : ℕ) : ∃ layer, config.layer false layerIdx = .ok layer := by
  obtain ⟨factor, power⟩ := exists_fit_eq Error 64 (config.layerMultiplier ^ (layerIdx % 2 ^ 32))
  obtain ⟨target, product⟩ := exists_multiply_eq Error config.baseTargetSize factor
  refine ⟨config.layerOfTarget layerIdx target, ?_⟩
  rw [layer, Machine.power, power, bind_eq, ok_bind, product]
  rfl

theorem one_le_minSize {overflowChecks : Bool} {layer : LayerConfig}
    (layerEq : config.layer overflowChecks layerIdx = .ok layer) : 1 ≤ layer.minSize := by
  obtain ⟨factor, -, layerEq⟩ := bind_eq_ok_iff.mp layerEq
  obtain ⟨target, -, layerEq⟩ := bind_eq_ok_iff.mp layerEq
  obtain rfl := Outcome.ok.inj layerEq
  exact le_max_right _ _

theorem maxSize_pos_iff (valid : config.validate = .ok done) (fit : config.LayerSizesFit)
    (inside : layerIdx < config.numLayers) :
    0 < (config.layerConfig layerIdx).maxSize ↔ config.maxSizeRatio.isNaN = false := by
  obtain ⟨⟨-, base, multiplier⟩, -, above⟩ := validate_eq_ok_iff.mp valid
  have size := fit layerIdx inside
  have positive : 0 < config.baseTargetSize * config.layerMultiplier ^ layerIdx :=
    Nat.mul_pos (by omega) (Nat.pow_pos (by omega))
  constructor
  · intro maximum
    by_contra number
    have zero := Binary64.toUInt64_mul_of_isNaN
      (UInt64.ofNat (config.baseTargetSize * config.layerMultiplier ^ layerIdx))
      (Bool.not_eq_false _ ▸ number)
    have value : (config.layerConfig layerIdx).maxSize = 0 := congrArg UInt64.toNat zero
    omega
  · intro number
    apply Binary64.one_le_toUInt64_mul _ number above
    rw [UInt64.toNat_ofNat_of_lt' size]
    exact positive

end ChonkersConfig

end Warp.Chonkers
