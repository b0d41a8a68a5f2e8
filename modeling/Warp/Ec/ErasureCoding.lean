import Warp.Foundation.Blocks
import Warp.Foundation.Machine

/-! # Reed-Solomon erasure coding

Data is padded and split into data shards of one even size, and a Reed-Solomon code adds parity
shards. Decoding concatenates the data shards if they are all there, and otherwise has the code
restore those that are missing.
-/

namespace Warp.Ec

inductive Error where
  | invalidConfig (text : String)
  | invalidDataSize (text : String)
  | tooManyMissing (needed available : ℕ)
  | shardSizeMismatch (expected actual : ℕ)
  | wrongShardCount (expected actual : ℕ)
  | encodingError (text : String)

structure ErasureConfig where
  dataShards : ℕ
  parityShards : ℕ

namespace ErasureConfig

variable (overflowChecks : Bool)

def new (dataShards parityShards : ℕ) : Outcome Error ErasureConfig :=
  if dataShards = 0 then .error (.invalidConfig "data_shards must be at least 1")
  else if parityShards = 0 then .error (.invalidConfig "parity_shards must be at least 1")
  else do
    let total ← Machine.fit overflowChecks 64 (dataShards + parityShards)
    if total > 32768 then
      .error (.invalidConfig s!"total shards ({total}) exceeds maximum of 32768")
    else .ok ⟨dataShards, parityShards⟩

variable (config : ErasureConfig)

def totalShards : Outcome Error ℕ :=
  Machine.fit overflowChecks 64 (config.dataShards + config.parityShards)

/-- The required shard size for a given data size: the quotient rounded up, and up again to the
next even number. -/
def shardSizeForData (dataSize : ℕ) : Outcome Error ℕ := do
  let rawSize ← Machine.divCeil dataSize config.dataShards
  let next ← Machine.fit overflowChecks 64 (rawSize + 1)
  .ok (next / 2 * 2)

def paddedDataSize (dataSize : ℕ) : Outcome Error ℕ := do
  let shardSize ← config.shardSizeForData overflowChecks dataSize
  Machine.multiply overflowChecks shardSize config.dataShards

end ErasureConfig

/-- The encoder and the decoder of the `reed-solomon-simd` library. -/
structure ReedSolomon where
  Encoder : Type
  /-- An encoder for a number of original and of recovery shards of a size. -/
  newEncoder : ℕ → ℕ → ℕ → Except String Encoder
  addShard : Encoder → Bytes → Except String Encoder
  encode : Encoder → Except String (List Bytes)
  Decoder : Type
  newDecoder : ℕ → ℕ → ℕ → Except String Decoder
  addOriginalShard : Decoder → ℕ → Bytes → Except String Decoder
  addRecoveryShard : Decoder → ℕ → Bytes → Except String Decoder
  decode : Decoder → Except String (List (ℕ × Bytes))

namespace ReedSolomon

variable (code : ReedSolomon)

def recoveryShards (originalCount recoveryCount size : ℕ) (originals : List Bytes) :
    Except String (List Bytes) := do
  let encoder ← code.newEncoder originalCount recoveryCount size
  let encoder ← originals.foldlM code.addShard encoder
  code.encode encoder

def restoredShards (originalCount recoveryCount size : ℕ)
    (originals recoveries : List (ℕ × Bytes)) : Except String (List (ℕ × Bytes)) := do
  let decoder ← code.newDecoder originalCount recoveryCount size
  let decoder ← originals.foldlM
    (fun decoder shard => code.addOriginalShard decoder shard.1 shard.2) decoder
  let decoder ← recoveries.foldlM
    (fun decoder shard => code.addRecoveryShard decoder shard.1 shard.2) decoder
  code.decode decoder

/-- What the library promises for numbers of shards and a size: original shards of the size can
be encoded, and from any of the shards, if they are as many as the original ones, exactly the
missing original shards are restored. -/
def Restores (originalCount recoveryCount size : ℕ) : Prop :=
  ∀ originals : List Bytes, originals.length = originalCount →
    (∀ shard ∈ originals, shard.length = size) →
    ∃ recoveries, code.recoveryShards originalCount recoveryCount size originals = .ok recoveries ∧
      recoveries.length = recoveryCount ∧ (∀ shard ∈ recoveries, shard.length = size) ∧
      ∀ givenOriginals givenRecoveries : List (ℕ × Bytes),
        (givenOriginals.map Prod.fst).Nodup → (givenRecoveries.map Prod.fst).Nodup →
        (∀ shard ∈ givenOriginals, originals[shard.1]? = some shard.2) →
        (∀ shard ∈ givenRecoveries, recoveries[shard.1]? = some shard.2) →
        originalCount ≤ givenOriginals.length + givenRecoveries.length →
        ∃ restored, code.restoredShards originalCount recoveryCount size givenOriginals
            givenRecoveries = .ok restored ∧
          ∀ index shard, (index, shard) ∈ restored ↔
            originals[index]? = some shard ∧ index ∉ givenOriginals.map Prod.fst

end ReedSolomon

variable (overflowChecks : Bool) (code : ReedSolomon) (config : ErasureConfig)

def failing {Value : Type} (what : String) (result : Except String Value) : Outcome Error Value :=
  .ofExcept (result.mapError fun text => .encodingError s!"{what}: {text}")

/-- Go through a list with a library object, up to the first error. -/
def addAll {Object Shard : Type} (what : String) (add : Object → Shard → Except String Object) :
    Object → List Shard → Outcome Error Object
  | object, [] => .ok object
  | object, shard :: shards =>
    (failing what (add object shard)).bind fun object => addAll what add object shards

/-- Encode data into shards: the data shards, then the parity shards. -/
def encode (data : Bytes) : Outcome Error (List Bytes) :=
  if data = [] then .error (.invalidDataSize "Data cannot be empty")
  else do
    let shardSize ← config.shardSizeForData overflowChecks data.length
    let paddedSize ← config.paddedDataSize overflowChecks data.length
    let paddedData := if data.length = paddedSize then data else data.resize paddedSize 0
    let encoder ← failing "Failed to create encoder"
      (code.newEncoder config.dataShards config.parityShards shardSize)
    -- Splitting into chunks of no bytes panics.
    if shardSize = 0 then .panic else
    let encoder ← addAll "Failed to add shard" code.addShard encoder (paddedData.chunks shardSize)
    let recoveries ← failing "Encoding failed" (code.encode encoder)
    .ok (paddedData.chunks shardSize ++ recoveries)

def present (shards : List (Option Bytes)) : List (ℕ × Bytes) :=
  shards.zipIdx.filterMap fun entry => entry.1.map fun shard => (entry.2, shard)

def scan : List Bytes → ℕ → ℕ → Outcome Error (ℕ × ℕ)
  | [], shardSize, availableCount => .ok (shardSize, availableCount)
  | shard :: shards, shardSize, availableCount =>
    if shardSize = 0 then scan shards shard.length (availableCount + 1)
    else if shard.length ≠ shardSize then .error (.shardSizeMismatch shardSize shard.length)
    else scan shards shardSize (availableCount + 1)

def copyShard (shardSize : ℕ) (result : Bytes) (shard : ℕ × Bytes) : Outcome Error Bytes :=
  let start := shard.1 * shardSize
  if start + shardSize ≤ result.length ∧ shard.2.length = shardSize then
    .ok (result.overwrite start shard.2)
  else .panic

def copyShards (shardSize : ℕ) : Bytes → List (ℕ × Bytes) → Outcome Error Bytes
  | result, [] => .ok result
  | result, shard :: shards =>
    (copyShard shardSize result shard).bind fun result => copyShards shardSize result shards

def reconstruct (shardSize : ℕ) (shards : List (Option Bytes)) : Outcome Error Bytes := do
  let originals := present (shards.take config.dataShards)
  let recoveries := present (shards.drop config.dataShards)
  let decoder ← failing "Failed to create decoder"
    (code.newDecoder config.dataShards config.parityShards shardSize)
  let decoder ← addAll "Failed to add original shard"
    (fun decoder shard => code.addOriginalShard decoder shard.1 shard.2) decoder originals
  let decoder ← addAll "Failed to add recovery shard"
    (fun decoder shard => code.addRecoveryShard decoder shard.1 shard.2) decoder recoveries
  let restored ← failing "Decoding failed" (code.decode decoder)
  let result := List.replicate (shardSize * config.dataShards) 0
  let result ← copyShards shardSize result originals
  copyShards shardSize result restored

/-- Decode shards back to original data, where those that are missing are `none`. -/
def decode (shards : List (Option Bytes)) : Outcome Error Bytes := do
  let total ← config.totalShards overflowChecks
  if shards.length ≠ total then .error (.wrongShardCount total shards.length) else
  let (shardSize, availableCount) ← scan (shards.filterMap id) 0 0
  if shardSize = 0 then .error (.tooManyMissing config.dataShards 0)
  else if availableCount < config.dataShards then
    .error (.tooManyMissing config.dataShards availableCount)
  else if (shards.take config.dataShards).all Option.isSome then
    .ok ((shards.take config.dataShards).filterMap id).flatten
  else reconstruct code config shardSize shards

def decodeExact (shards : List (Option Bytes)) (originalLen : ℕ) : Outcome Error Bytes := do
  let data ← decode overflowChecks code config shards
  .ok (data.take originalLen)

end Warp.Ec
