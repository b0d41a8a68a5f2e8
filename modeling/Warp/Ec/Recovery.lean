import Mathlib.Data.List.Nodup
import Warp.Ec.ErasureCoding

/-! # Recovery from lost shards

Shards are lost in any pattern. As long as no more are lost than there are parity shards,
decoding gives back the data; with one more it fails (`survives_loss`).
-/

namespace Warp.Ec

open List Outcome Bytes Machine Option ErasureConfig

theorem failing_eq_ok_iff {Value : Type} {what : String} {result : Except String Value}
    {value : Value} : failing what result = .ok value ↔ result = .ok value := by
  rw [failing, ofExcept_eq_ok_iff, mapError_eq_ok_iff]

theorem addAll_eq {Object Shard : Type} (what : String)
    (add : Object → Shard → Except String Object) (object : Object) (shards : List Shard) :
    addAll what add object shards = failing what (shards.foldlM add object) := by
  induction shards generalizing object with
  | nil => rfl
  | cons shard shards ih =>
    rw [addAll, foldlM_cons]
    cases add object shard with
    | error failure => rfl
    | ok next => exact ih next

variable {dataShards size : ℕ} {shard : Bytes}

section Sizes

/-- The size of the shards for a number of data shards and a length of data. -/
def evenShardSize (dataShards length : ℕ) : ℕ :=
  ((length + dataShards - 1) / dataShards + 1) / 2 * 2

variable {overflowChecks : Bool} {config : ErasureConfig} {length : ℕ}

theorem evenShardSize_even (dataShards length : ℕ) : evenShardSize dataShards length % 2 = 0 :=
  Nat.mul_mod_left _ 2

theorem length_le_evenShardSize_mul (positive : 0 < dataShards) (length : ℕ) :
    length ≤ evenShardSize dataShards length * dataShards := by
  have quotient : length ≤ (length + dataShards - 1) / dataShards * dataShards := by
    have whole := Nat.div_add_mod' (length + dataShards - 1) dataShards
    have rest := Nat.mod_lt (length + dataShards - 1) positive
    omega
  have rounded : (length + dataShards - 1) / dataShards ≤ evenShardSize dataShards length := by
    unfold evenShardSize
    omega
  exact quotient.trans (Nat.mul_le_mul_right dataShards rounded)

section
variable (positive : 0 < config.dataShards)
  (fits : evenShardSize config.dataShards length * config.dataShards < 2 ^ 64)
include positive fits

theorem shardSizeForData_eq :
    config.shardSizeForData overflowChecks length =
      .ok (evenShardSize config.dataShards length) := by
  have next : (length + config.dataShards - 1) / config.dataShards + 1 < 2 ^ 64 := by
    have size : evenShardSize config.dataShards length < 2 ^ 64 :=
      Nat.lt_of_le_of_lt (Nat.le_mul_of_pos_right _ positive) fits
    unfold evenShardSize at size
    omega
  rw [shardSizeForData, Machine.divCeil, if_neg positive.ne', bind_eq,
    ok_bind, fit_of_lt next]
  rfl

theorem paddedDataSize_eq :
    config.paddedDataSize overflowChecks length =
      .ok (evenShardSize config.dataShards length * config.dataShards) := by
  rw [paddedDataSize, shardSizeForData_eq positive fits]
  exact multiply_of_lt fits

end

theorem new_eq_ok {parityShards : ℕ}
    (accepted : new overflowChecks dataShards parityShards = .ok config)
    (fits : dataShards + parityShards < 2 ^ 64) :
    config = ⟨dataShards, parityShards⟩ ∧ 0 < dataShards := by
  unfold new at accepted
  split at accepted
  · contradiction
  split at accepted
  · contradiction
  rename_i nonzero _
  rw [fit_of_lt fits, bind_eq, ok_bind] at accepted
  split at accepted
  · contradiction
  · cases accepted
    exact ⟨rfl, Nat.pos_of_ne_zero nonzero⟩

end Sizes

section Present

/-- Shards of which some were lost. -/
def Lost (shards : List Bytes) (available : List (Option Bytes)) : Prop :=
  List.Forall₂ (fun shard left => left = none ∨ left = some shard) shards available

variable {shards : List Bytes} {available : List (Option Bytes)}

theorem Lost.getElem (lost : Lost shards available) {index : ℕ}
    (left : available[index]? = some (some shard)) : shards[index]? = some shard := by
  induction lost generalizing index with
  | nil => exact absurd left (by simp)
  | @cons first left' shards available here others ih =>
    cases index with
    | zero =>
      rw [getElem?_cons_zero, some.injEq] at left ⊢
      rw [left] at here
      rcases here with none | same
      · contradiction
      · exact (some.inj same).symm
    | succ index => exact ih left

section
variable {first second : List Bytes} {available : List (Option Bytes)} {count : ℕ}
  (lost : Lost (first ++ second) available) (length : first.length = count)
include lost length

theorem Lost.take : Lost first (available.take count) := by
  have front := forall₂_take count lost
  rwa [take_left' length] at front

theorem Lost.drop : Lost second (available.drop count) := by
  have back := forall₂_drop count lost
  rwa [drop_left' length] at back

end

theorem mem_present_iff {shards : List (Option Bytes)} {entry : ℕ × Bytes} :
    entry ∈ present shards ↔ shards[entry.1]? = some (some entry.2) := by
  obtain ⟨index, shard⟩ := entry
  simp only [present, mem_filterMap, Prod.exists, mem_zipIdx_iff_getElem?,
    map_eq_some_iff, Prod.mk.injEq]
  constructor
  · rintro ⟨_, _, found, shard, rfl, rfl, rfl⟩
    exact found
  · intro found
    exact ⟨_, _, found, shard, rfl, rfl, rfl⟩

theorem nodup_present (shards : List (Option Bytes)) : ((present shards).map Prod.fst).Nodup := by
  have ordered : shards.zipIdx.Pairwise fun first second => first.2 < second.2 := by
    rw [← pairwise_map, zipIdx_map_snd]
    exact pairwise_lt_range'
  have kept : (present shards).Pairwise fun first second => first.1 < second.1 := by
    refine ordered.filterMap _ fun first second before entry isEntry other isOther => ?_
    obtain ⟨_, -, rfl⟩ := map_eq_some_iff.mp isEntry
    obtain ⟨_, -, rfl⟩ := map_eq_some_iff.mp isOther
    exact before
  exact pairwise_map.mpr (kept.imp Nat.ne_of_lt)

theorem map_snd_present (shards : List (Option Bytes)) :
    (present shards).map Prod.snd = shards.filterMap id := by
  rw [present, map_filterMap]
  calc shards.zipIdx.filterMap _ = (shards.zipIdx.map Prod.fst).filterMap id := by
        rw [filterMap_map]
        congr 1
        funext ⟨left, index⟩
        cases left <;> rfl
    _ = shards.filterMap id := by rw [zipIdx_map_fst]

theorem length_present (shards : List (Option Bytes)) :
    (present shards).length = (shards.filterMap id).length := by
  rw [← map_snd_present, length_map]

theorem length_present_take_add_drop (shards : List (Option Bytes)) (count : ℕ) :
    (present (shards.take count)).length + (present (shards.drop count)).length =
      (shards.filterMap id).length := by
  rw [length_present, length_present, ← length_append, ← filterMap_append, take_append_drop]

theorem length_filterMap_add_missing (available : List (Option Bytes)) :
    (available.filterMap id).length + available.countP isNone = available.length := by
  induction available with
  | nil => rfl
  | cons left available ih =>
    cases left with
    | none =>
      rw [filterMap_cons_none rfl, countP_cons_of_pos rfl, length_cons, ← ih]
      omega
    | some shard =>
      rw [filterMap_cons, countP_cons_of_neg (by simp), length_cons, ← ih]
      exact Nat.add_right_comm ..

theorem Lost.mem (lost : Lost shards available) (left : shard ∈ available.filterMap id) :
    shard ∈ shards := by
  obtain ⟨_, member, rfl⟩ := mem_filterMap.mp left
  obtain ⟨index, found⟩ := mem_iff_getElem?.mp member
  exact mem_of_getElem? (lost.getElem found)

theorem Lost.filterMap_of_all (lost : Lost shards available)
    (all : available.all isSome = true) :
    available.filterMap id = shards := by
  induction lost with
  | nil => rfl
  | cons here others ih =>
    rw [all_cons, Bool.and_eq_true] at all
    rcases here with rfl | rfl
    · exact absurd all.1 Bool.false_ne_true
    · rw [filterMap_cons, ih all.2]
      rfl

theorem scan_uniform (positive : 0 < size) (uniform : ∀ shard ∈ shards, shard.length = size)
    (count : ℕ) :
    scan shards size count = .ok (size, count + shards.length) := by
  induction shards generalizing count with
  | nil => rfl
  | cons shard shards ih =>
    obtain ⟨first, others⟩ := forall_mem_cons.mp uniform
    rw [scan, if_neg positive.ne', if_neg (not_not.mpr first), ih others, length_cons,
      Nat.add_right_comm, Nat.add_assoc]

theorem scan_start (positive : 0 < size) (uniform : ∀ shard ∈ shards, shard.length = size) :
    scan shards 0 0 = .ok (if shards = [] then 0 else size, shards.length) := by
  cases shards with
  | nil => rfl
  | cons shard shards =>
    obtain ⟨first, others⟩ := forall_mem_cons.mp uniform
    rw [scan, if_pos rfl, first, scan_uniform positive others, if_neg (cons_ne_nil _ _),
      length_cons, Nat.add_comm]

end Present

section Copying

def place (blocks : List Bytes) (shards : List (ℕ × Bytes)) : List Bytes :=
  shards.foldl (fun blocks shard => blocks.set shard.1 shard.2) blocks

variable {size : ℕ} {blocks target : List Bytes} {shards : List (ℕ × Bytes)}

theorem copyShard_eq {shard : ℕ × Bytes} (uniform : ∀ block ∈ blocks, block.length = size)
    (inside : shard.1 < blocks.length) (exact : shard.2.length = size) :
    copyShard size blocks.flatten shard = .ok (blocks.set shard.1 shard.2).flatten := by
  have room : shard.1 * size + size ≤ blocks.flatten.length := by
    rw [length_flatten_uniform uniform, ← Nat.succ_mul]
    exact Nat.mul_le_mul_right size inside
  rw [copyShard, if_pos ⟨room, exact⟩, overwrite_flatten uniform exact inside]

theorem copyShards_eq (uniform : ∀ block ∈ blocks, block.length = size)
    (exact : ∀ block ∈ target, block.length = size) (same : blocks.length = target.length)
    (fromTarget : ∀ shard ∈ shards, target[shard.1]? = some shard.2) :
    copyShards size blocks.flatten shards = .ok (place blocks shards).flatten := by
  induction shards generalizing blocks with
  | nil => rfl
  | cons shard shards ih =>
    obtain ⟨here, others⟩ := forall_mem_cons.mp fromTarget
    have inside : shard.1 < blocks.length := by
      rw [same]
      exact (List.getElem?_eq_some_iff.mp here).1
    have fits := exact _ (mem_of_getElem? here)
    rw [copyShards, copyShard_eq uniform inside fits, ok_bind]
    refine ih (fun block member => ?_) (by rw [length_set, same]) others
    rcases mem_or_eq_of_mem_set member with old | rfl
    · exact uniform block old
    · exact fits

theorem length_place (blocks : List Bytes) (shards : List (ℕ × Bytes)) :
    (place blocks shards).length = blocks.length := by
  induction shards generalizing blocks with
  | nil => rfl
  | cons shard shards ih => rw [place, foldl_cons, ← place, ih, length_set]

variable (same : blocks.length = target.length)
  (fromTarget : ∀ shard ∈ shards, target[shard.1]? = some shard.2)
include same fromTarget

/-- The places of the shards hold the target, all others what they held before. -/
theorem getElem_place (index : ℕ) :
    (place blocks shards)[index]? =
      if index ∈ shards.map Prod.fst then target[index]? else blocks[index]? := by
  induction shards generalizing blocks with
  | nil => rfl
  | cons shard shards ih =>
    obtain ⟨here, others⟩ := forall_mem_cons.mp fromTarget
    rw [place, foldl_cons, ← place, ih (by rw [length_set, same]) others, map_cons]
    by_cases later : index ∈ shards.map Prod.fst
    · rw [if_pos later, if_pos (mem_cons_of_mem _ later)]
    · rw [if_neg later]
      by_cases isHere : index = shard.1
      · have inside : shard.1 < blocks.length := by
          rw [same]
          exact (List.getElem?_eq_some_iff.mp here).1
        rw [isHere, if_pos mem_cons_self, here, getElem?_set_self inside]
      · rw [if_neg (not_mem_cons_of_ne_of_not_mem isHere later), getElem?_set_ne (Ne.symm isHere)]

theorem uniform_place (uniform : ∀ block ∈ blocks, block.length = size)
    (exact : ∀ block ∈ target, block.length = size) :
    ∀ block ∈ place blocks shards, block.length = size := by
  intro block member
  obtain ⟨index, found⟩ := mem_iff_getElem?.mp member
  rw [getElem_place same fromTarget] at found
  split at found
  · exact exact block (mem_of_getElem? found)
  · exact uniform block (mem_of_getElem? found)

theorem place_place_eq {missing : List (ℕ × Bytes)}
    (isMissing : ∀ index shard, (index, shard) ∈ missing ↔
      target[index]? = some shard ∧ index ∉ shards.map Prod.fst) :
    place (place blocks shards) missing = target := by
  have placed : (place blocks shards).length = target.length := by rw [length_place, same]
  apply ext_getElem?
  intro index
  rw [getElem_place placed fun shard member => ((isMissing _ _).mp member).1,
    getElem_place same fromTarget]
  split
  · rfl
  split
  · rfl
  · rename_i notMissing notGiven
    cases found : target[index]? with
    | none =>
      rw [List.getElem?_eq_none_iff] at found ⊢
      rwa [same]
    | some shard =>
      have member := (isMissing index shard).mpr ⟨found, notGiven⟩
      exact absurd (mem_map_of_mem member) notMissing

end Copying

section Decoding
variable {overflowChecks : Bool} {code : ReedSolomon} {config : ErasureConfig} {size : ℕ}
  {originals recoveries : List Bytes} {available : List (Option Bytes)}
variable (config) in
theorem reconstruct_eq
    (restored : ∃ restored, code.restoredShards config.dataShards config.parityShards size
        (present (available.take config.dataShards)) (present (available.drop config.dataShards)) =
          .ok restored ∧
      ∀ index shard, (index, shard) ∈ restored ↔ originals[index]? = some shard ∧
        index ∉ (present (available.take config.dataShards)).map Prod.fst)
    (count : originals.length = config.dataShards)
    (uniform : ∀ shard ∈ originals, shard.length = size)
    (lost : Lost originals (available.take config.dataShards)) :
    reconstruct code config size available = .ok originals.flatten := by
  obtain ⟨restored, decoded, exactly⟩ := restored
  obtain ⟨empty, created, decoded⟩ := except_bind_eq_ok_iff.mp decoded
  obtain ⟨half, addedOriginals, decoded⟩ := except_bind_eq_ok_iff.mp decoded
  obtain ⟨full, addedRecoveries, decoded⟩ := except_bind_eq_ok_iff.mp decoded
  let zeros := List.replicate config.dataShards (List.replicate size (0 : UInt8))
  have start : List.replicate (size * config.dataShards) 0 = zeros.flatten := by
    rw [flatten_replicate_replicate, Nat.mul_comm]
  have zeroSize : ∀ block ∈ zeros, block.length = size := by
    intro block member
    rw [eq_of_mem_replicate member, length_replicate]
  have places : zeros.length = originals.length := by rw [length_replicate, count]
  have given : ∀ shard ∈ present (available.take config.dataShards),
      originals[shard.1]? = some shard.2 :=
    fun shard member => lost.getElem (mem_present_iff.mp member)
  have first := copyShards_eq zeroSize uniform places given
  have second := copyShards_eq (uniform_place places given zeroSize uniform) uniform
    ((length_place _ _).trans places) fun shard member => ((exactly _ _).mp member).1
  rw [reconstruct, bind_eq, failing_eq_ok_iff.mpr created, ok_bind,
    bind_eq, addAll_eq, failing_eq_ok_iff.mpr addedOriginals, ok_bind, bind_eq,
    addAll_eq, failing_eq_ok_iff.mpr addedRecoveries, ok_bind, bind_eq,
    failing_eq_ok_iff.mpr decoded, ok_bind, start, bind_eq, first,
    ok_bind, second, place_place_eq places given exactly]

theorem decode_eq {shards : List (Option Bytes)} {found : ℕ × ℕ}
    (counted : config.totalShards overflowChecks = .ok shards.length)
    (scanned : scan (shards.filterMap id) 0 0 = .ok found) :
    decode overflowChecks code config shards =
      if found.1 = 0 then .error (.tooManyMissing config.dataShards 0)
      else if found.2 < config.dataShards then .error (.tooManyMissing config.dataShards found.2)
      else if (shards.take config.dataShards).all isSome then
        .ok ((shards.take config.dataShards).filterMap id).flatten
      else reconstruct code config found.1 shards := by
  rw [decode, counted, bind_eq, ok_bind, if_neg (not_not.mpr rfl), bind_eq, scanned, ok_bind]

variable (overflowChecks code config) in
theorem decode_lost (positive : 0 < size)
    (uniform : ∀ shard ∈ originals ++ recoveries, shard.length = size)
    (count : originals.length = config.dataShards) (someData : 0 < config.dataShards)
    (recoveryCount : recoveries.length = config.parityShards)
    (fits : config.dataShards + config.parityShards < 2 ^ 64)
    (lost : Lost (originals ++ recoveries) available) :
    decode overflowChecks code config available =
      if (available.filterMap id).length < config.dataShards then
        .error (.tooManyMissing config.dataShards (available.filterMap id).length)
      else if (available.take config.dataShards).all isSome then .ok originals.flatten
      else reconstruct code config size available := by
  have counted : config.totalShards overflowChecks = .ok available.length := by
    rw [totalShards, fit_of_lt fits, ← lost.length_eq, length_append, count,
      recoveryCount]
  rw [decode_eq counted (scan_start positive fun shard left => uniform shard (lost.mem left))]
  by_cases none : available.filterMap id = []
  · simp only [none, ↓reduceIte, length_nil, someData]
  · simp only [none, if_false, positive.ne']
    split
    · rfl
    · split
      · rename_i all
        rw [(lost.take count).filterMap_of_all all]
      · rfl

end Decoding

section Encoding
variable {overflowChecks : Bool} {code : ReedSolomon} {config : ErasureConfig}

theorem evenShardSize_pos {data : Bytes} (positive : 0 < dataShards) (nonempty : data ≠ []) :
    0 < evenShardSize dataShards data.length := by
  refine Nat.pos_of_ne_zero fun zero => nonempty (eq_nil_of_length_eq_zero ?_)
  have enough := length_le_evenShardSize_mul positive data.length
  rwa [zero, Nat.zero_mul, Nat.le_zero] at enough

section
variable {data : Bytes} {size dataShards : ℕ}

variable (positive : 0 < size)
include positive

theorem chunks_resize :
    (data.resize (size * dataShards) 0).chunks size =
      (data.resize (size * dataShards) 0).blocks size dataShards := by
  apply chunks_eq_blocks positive
  rw [length_resize, Nat.mul_comm]

theorem length_chunks_resize :
    ((data.resize (size * dataShards) 0).chunks size).length = dataShards := by
  rw [chunks_resize positive, length_blocks]

theorem length_of_mem_chunks_resize
    (member : shard ∈ (data.resize (size * dataShards) 0).chunks size) : shard.length = size := by
  rw [chunks_resize positive] at member
  refine length_of_mem_blocks ?_ member
  rw [length_resize, Nat.mul_comm]

/-- The data is what the shards of the padded data start with. -/
theorem take_flatten_chunks_resize (enough : data.length ≤ size * dataShards) :
    ((data.resize (size * dataShards) 0).chunks size).flatten.take data.length = data := by
  rw [chunks_resize positive, flatten_blocks, take_resize enough]
  rw [length_resize, Nat.mul_comm]

end

/-- Encoding pads the data, splits it into the data shards and adds the recovery shards. -/
theorem encode_eq {data padded : Bytes} {recoveries : List Bytes} (nonempty : data ≠ [])
    (positive : 0 < config.dataShards) (isSize : size = evenShardSize config.dataShards data.length)
    (fits : size * config.dataShards < 2 ^ 64)
    (isPadded : padded = data.resize (size * config.dataShards) 0)
    (recovered : code.recoveryShards config.dataShards config.parityShards size
      (padded.chunks size) = .ok recoveries) :
    encode overflowChecks code config data = .ok (padded.chunks size ++ recoveries) := by
  have sizePositive : size ≠ 0 := isSize ▸ (evenShardSize_pos positive nonempty).ne'
  have isResized : (if data.length = size * config.dataShards then data
      else data.resize (size * config.dataShards) 0) = padded := by
    rw [isPadded]
    split
    · rename_i whole
      rw [← whole, resize_length]
    · rfl
  obtain ⟨empty, created, recovered⟩ := except_bind_eq_ok_iff.mp recovered
  obtain ⟨full, added, recovered⟩ := except_bind_eq_ok_iff.mp recovered
  rw [isSize] at fits
  rw [encode, if_neg nonempty, bind_eq, shardSizeForData_eq positive fits, ok_bind,
    bind_eq, paddedDataSize_eq positive fits, ok_bind, ← isSize, isResized,
    bind_eq, failing_eq_ok_iff.mpr created, ok_bind, if_neg sizePositive,
    bind_eq, addAll_eq, failing_eq_ok_iff.mpr added, ok_bind, bind_eq,
    failing_eq_ok_iff.mpr recovered, ok_bind]

end Encoding

/-- Decoding gives the data back whichever shards are lost, if they are at most as many as the
parity shards, and fails if they are more. -/
theorem survives_loss (overflowChecks : Bool) (code : ReedSolomon) (dataShards parityShards : ℕ)
    (config : ErasureConfig)
    (accepted : ErasureConfig.new overflowChecks dataShards parityShards = .ok config)
    (shardsFit : dataShards + parityShards < 2 ^ 64)
    (restores : ∀ size, 0 < size → size % 2 = 0 → code.Restores dataShards parityShards size)
    (data : Bytes) (nonempty : data ≠ [])
    (sizesFit : evenShardSize dataShards data.length * dataShards < 2 ^ 64) :
    ∃ shards, encode overflowChecks code config data = .ok shards ∧
      shards.length = dataShards + parityShards ∧
      ∀ available, Lost shards available →
        (available.countP Option.isNone ≤ parityShards →
          decodeExact overflowChecks code config available data.length = .ok data) ∧
        (parityShards < available.countP Option.isNone →
          ∃ failure, decode overflowChecks code config available = .error failure) := by
  obtain ⟨rfl, positive⟩ := new_eq_ok accepted shardsFit
  -- The padded data is cut into as many blocks as there are data shards.
  let size := evenShardSize dataShards data.length
  let padded := data.resize (size * dataShards) 0
  have sizePositive : 0 < size := evenShardSize_pos positive nonempty
  have count : (padded.chunks size).length = dataShards := length_chunks_resize sizePositive
  have uniform (shard : Bytes) (member : shard ∈ padded.chunks size) : shard.length = size :=
    length_of_mem_chunks_resize sizePositive member
  obtain ⟨recoveries, recovered, recoveryCount, recoveryUniform, restored⟩ :=
    restores size sizePositive (evenShardSize_even _ _) (padded.chunks size) count uniform
  have isPadded : padded = data.resize (size * dataShards) 0 := rfl
  have encoded : encode overflowChecks code ⟨dataShards, parityShards⟩ data =
      .ok (padded.chunks size ++ recoveries) :=
    encode_eq nonempty positive rfl sizesFit isPadded recovered
  have shardCount : (padded.chunks size ++ recoveries).length = dataShards + parityShards := by
    rw [length_append, count, recoveryCount]
  refine ⟨padded.chunks size ++ recoveries, encoded, shardCount, ?_⟩
  intro available lost
  have allUniform : ∀ shard ∈ padded.chunks size ++ recoveries, shard.length = size :=
    fun shard member => (mem_append.mp member).elim (uniform shard) (recoveryUniform shard)
  have decoded := decode_lost overflowChecks code ⟨dataShards, parityShards⟩ sizePositive
    allUniform count positive recoveryCount shardsFit lost
  have total : (available.filterMap id).length + available.countP isNone =
      dataShards + parityShards := by
    rw [length_filterMap_add_missing, ← lost.length_eq, shardCount]
  constructor
  · intro few
    have allThere : dataShards ≤ (available.filterMap id).length := by omega
    have given := (length_present_take_add_drop available dataShards).symm ▸ allThere
    have reconstructed := reconstruct_eq ⟨dataShards, parityShards⟩
      (restored _ _ (nodup_present _) (nodup_present _)
        (fun shard member => (lost.take count).getElem (mem_present_iff.mp member))
        (fun shard member => (lost.drop count).getElem (mem_present_iff.mp member)) given)
      count uniform (lost.take count)
    rw [decodeExact, decoded, if_neg (Nat.not_lt.mpr allThere), reconstructed, ite_self,
      bind_eq, ok_bind, take_flatten_chunks_resize sizePositive
        (length_le_evenShardSize_mul positive data.length)]
  · intro many
    rw [decoded, if_pos (show _ < dataShards by omega)]
    exact ⟨_, rfl⟩

/-- One data and one parity shard, which is a copy of the data shard. -/
def mirror : ReedSolomon where
  Encoder := List Bytes
  newEncoder originalCount recoveryCount _ :=
    if originalCount = 1 ∧ recoveryCount = 1 then .ok [] else .error "unsupported shard count"
  addShard shards shard := .ok (shards ++ [shard])
  encode shards := .ok shards
  Decoder := List (ℕ × Bytes) × List (ℕ × Bytes)
  newDecoder originalCount recoveryCount _ :=
    if originalCount = 1 ∧ recoveryCount = 1 then .ok ([], []) else .error "unsupported shard count"
  addOriginalShard decoder index shard := .ok (decoder.1 ++ [(index, shard)], decoder.2)
  addRecoveryShard decoder index shard := .ok (decoder.1, decoder.2 ++ [(index, shard)])
  decode decoder := .ok (if decoder.1 = [] then decoder.2 else [])

theorem eq_nil_or_singleton {entries : List (ℕ × Bytes)} (distinct : (entries.map Prod.fst).Nodup)
    (fromShard : ∀ entry ∈ entries, [shard][entry.1]? = some entry.2) :
    entries = [] ∨ entries = [(0, shard)] := by
  have only : ∀ entry ∈ entries, entry = (0, shard) := by
    rintro ⟨index, data⟩ member
    have found := fromShard _ member
    cases index with
    | zero => exact Prod.ext rfl (some.inj found).symm
    | succ index => exact absurd found (by simp)
  match entries, distinct, only with
  | [], _, _ => exact .inl rfl
  | [entry], _, only => exact .inr (by rw [only entry mem_cons_self])
  | first :: second :: _, distinct, only =>
    have same : first = second :=
      (only first (by simp)).trans (only second (by simp)).symm
    rw [map_cons, map_cons, nodup_cons, same] at distinct
    exact absurd mem_cons_self distinct.1

theorem mirror_restores (size : ℕ) : mirror.Restores 1 1 size := by
  intro originals single uniform
  obtain ⟨shard, rfl⟩ := length_eq_one_iff.mp single
  have recovered : mirror.recoveryShards 1 1 size [shard] = .ok [shard] := rfl
  refine ⟨[shard], recovered, rfl, uniform, ?_⟩
  intro givenOriginals givenRecoveries distinct distinct' isOriginal isRecovery enough
  have member (index : ℕ) (data : Bytes) :
      [shard][index]? = some data ↔ index = 0 ∧ data = shard := by
    cases index <;> simp [eq_comm]
  rcases eq_nil_or_singleton distinct isOriginal with rfl | rfl <;>
    rcases eq_nil_or_singleton distinct' isRecovery with rfl | rfl
  · exact absurd enough (by decide)
  · have restored : mirror.restoredShards 1 1 size [] [(0, shard)] = .ok [(0, shard)] := rfl
    refine ⟨[(0, shard)], restored, fun index data => ?_⟩
    simp [member]
  all_goals
    refine ⟨[], ?_, fun index data => ?_⟩
    · rfl
    · simpa [member] using fun isZero _ => isZero

/-- Three bytes in one data shard, which is lost. -/
theorem survives_loss_mirror :
    ∃ shards, encode true mirror ⟨1, 1⟩ [1, 2, 3] = .ok shards ∧
      decodeExact true mirror ⟨1, 1⟩ [none, shards[1]?] 3 = .ok [1, 2, 3] ∧
      ∃ failure, decode true mirror ⟨1, 1⟩ [none, none] = .error failure := by
  obtain ⟨shards, encoded, count, survives⟩ := survives_loss true mirror 1 1 ⟨1, 1⟩ rfl (by decide)
    (fun size _ _ => mirror_restores size) [1, 2, 3] (by decide) (by decide)
  obtain ⟨original, parity, rfl⟩ := length_eq_two.mp count
  have kept := (survives [none, some parity] (.cons (.inl rfl) (.cons (.inr rfl) .nil))).1
    (Nat.le_refl 1)
  have lost := (survives [none, none] (.cons (.inl rfl) (.cons (.inl rfl) .nil))).2 (by decide)
  exact ⟨[original, parity], encoded, kept, lost⟩

end Warp.Ec
