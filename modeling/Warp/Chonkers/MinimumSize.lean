import Warp.Chonkers.Merging

/-! # The minimum chunk size

Merging stops after a thousand turns, so on long data almost all boundaries stay. On data of zeros
all inner weights are equal and kittens exist only near the ends; the caterpillar phase prolongs
only chunks that are longer than one byte, up to the maximum.
-/

namespace Warp.Chonkers

open Boundaries Outcome Caterpillar ChunkWeight
open List hiding ranges

variable {length : ℕ} {boundaries : List ℕ} (turns : ℕ)

section Balancing

open Balancing

variable {hash : Bytes → ChunkId} {data : Bytes} {config : LayerConfig} {state : Balancing.State}
  {i : ℕ}
variable (hash data) in
/-- The weights are the ones of the boundaries. -/
def Balancing.State.Synced (state : Balancing.State) : Prop :=
  state.weights = computeWeights hash data state.boundaries

theorem Balancing.State.Synced.remove (synced : state.Synced hash data) (idx : ℕ) :
    (state.remove idx).Synced hash data := by
  unfold Balancing.State.Synced Balancing.State.remove computeWeights at *
  dsimp only
  rw [synced, eraseIdx_map]

theorem length_mergeKitten (synced : state.Synced hash data) (chunkIdx : ℕ) :
    (mergeKitten state chunkIdx).Synced hash data ∧
      state.boundaries.length ≤ (mergeKitten state chunkIdx).boundaries.length + 1 := by
  have removed (idx : ℕ) : (state.remove idx).Synced hash data ∧
      state.boundaries.length ≤ (state.remove idx).boundaries.length + 1 := by
    refine ⟨synced.remove idx, ?_⟩
    simp only [Balancing.State.remove, length_eraseIdx]
    split <;> omega
  unfold mergeKitten
  split
  · exact ⟨synced, Nat.le_succ _⟩
  · dsimp only
    split
    · exact removed chunkIdx
    · split
      · exact removed (chunkIdx + 1)
      · exact ⟨synced, Nat.le_succ _⟩

theorem length_foldl_visitKitten (kittens : List ℕ) (progress : Balancing.State × Bool)
    (synced : progress.1.Synced hash data) :
    (kittens.foldl visitKitten progress).1.Synced hash data ∧
      progress.1.boundaries.length ≤
        (kittens.foldl visitKitten progress).1.boundaries.length + kittens.length := by
  induction kittens generalizing progress with
  | nil => exact ⟨synced, le_rfl⟩
  | cons kitten rest ih =>
    have visited : (visitKitten progress kitten).1.Synced hash data ∧
        progress.1.boundaries.length ≤ (visitKitten progress kitten).1.boundaries.length + 1 := by
      unfold visitKitten
      split
      · exact length_mergeKitten synced kitten
      · exact ⟨synced, Nat.le_succ _⟩
    obtain ⟨kept, length⟩ := ih _ visited.1
    rw [foldl_cons, length_cons]
    exact ⟨kept, by omega⟩

def zeros (length : ℕ) : Bytes := List.replicate length 0

@[simp] theorem length_zeros (length : ℕ) : (zeros length).length = length :=
  length_replicate

theorem slice_zeros (length start stop : ℕ) :
    (zeros length).slice start stop = zeros (min (stop - start) (length - start)) := by
  rw [Bytes.slice, zeros, drop_replicate, take_replicate, zeros]

/-- Away from the ends of data of zeros all boundaries have the same weight. -/
theorem ofBoundary_zeros (hash : Bytes → ChunkId) {offset : ℕ} (lower : 4 ≤ offset)
    (upper : offset + 4 ≤ length) :
    ofBoundary hash offset (zeros length) = fromData hash (zeros 8) := by
  rw [ofBoundary, slice_zeros, length_zeros]
  congr 2
  omega

theorem getD_computeWeights_zeros (inside : i < boundaries.length) (lower : 4 ≤ boundaries.getD i 0)
    (upper : boundaries.getD i 0 + 4 ≤ length) :
    (computeWeights hash (zeros length) boundaries).getD i 0 =
      fromData hash (zeros 8) := by
  have size := length_zeros length
  rw [computeWeights, getD_eq_getElem _ _ (by rwa [length_map]), getElem_map,
    ← getD_eq_getElem _ 0 inside, if_neg (by omega), ofBoundary_zeros hash lower upper]

theorem kitten_near_ends (partitions : Partitions length state.boundaries)
    (synced : state.Synced hash (zeros length)) (member : i ∈ findKittens config state) :
    i < state.boundaries.length - 2 ∧ (i < 4 ∨ state.boundaries.length < i + 6) := by
  unfold findKittens at member
  split at member
  · contradiction
  · next many =>
    obtain ⟨inside, kitten⟩ := mem_filter.mp member
    have inside := mem_range.mp inside
    refine ⟨inside, ?_⟩
    by_contra inner
    simp only [isKitten, decide_eq_true_eq] at kitten
    have lighter := kitten.2.1
    have left := partitions.getD_bounds (show i < state.boundaries.length by omega)
    have right := partitions.getD_bounds (show i + 1 < state.boundaries.length by omega)
    have ordered := getD_add_le partitions.increasing (Nat.le_succ i) (by omega)
    rw [if_pos (by omega), synced, getD_computeWeights_zeros (by omega) (by omega) (by omega),
      getD_computeWeights_zeros (by omega) (by omega) (by omega)] at lighter
    exact Nat.lt_irrefl _ lighter

variable (config) in
theorem length_findKittens_le (partitions : Partitions length state.boundaries)
    (synced : state.Synced hash (zeros length)) : (findKittens config state).length ≤ 7 := by
  have distinct : (findKittens config state).Nodup := by
    unfold findKittens
    split
    · exact nodup_nil
    · exact nodup_range.filter _
  have ends : findKittens config state ⊆
      List.range' 0 4 ++ List.range' (state.boundaries.length - 5) 3 := by
    intro i member
    have bounds := kitten_near_ends partitions synced member
    rw [mem_append, mem_range'_1, mem_range'_1]
    omega
  exact (distinct.subperm ends).length_le

/-- On zeros the turns drop at most seven boundaries each. -/
theorem length_balancingLoop (state : Balancing.State)
    (partitions : Partitions length state.boundaries) (synced : state.Synced hash (zeros length)) :
    state.boundaries.length ≤
      (Balancing.loop config turns state).boundaries.length + 7 * turns := by
  induction turns generalizing state with
  | zero => exact le_rfl
  | succ turns ih =>
    have few := length_findKittens_le config partitions synced
    obtain ⟨kept, dropped⟩ := length_foldl_visitKitten (findKittens config state).reverse
      (state, false) synced
    have coarser := partitions.coarsen
      (coarsens_foldl_visitKitten (findKittens config state).reverse (state, false))
    rw [length_reverse] at dropped
    unfold Balancing.loop
    dsimp only at dropped ⊢
    split
    · omega
    · split
      · have later := ih _ coarser kept
        omega
      · omega

variable (hash config) in
theorem length_balancing (partitions : Partitions length boundaries) :
    boundaries.length ≤
      (Balancing.process hash (zeros length) config boundaries).length + 7000 := by
  unfold Balancing.process
  split
  · omega
  · exact length_balancingLoop maxIterations
      ⟨boundaries, computeWeights hash (zeros length) boundaries⟩ partitions rfl

end Balancing

section Caterpillar

/-- How many boundaries can still be dropped from a place on: a wide chunk there grows up to
the maximum, and so does every wide chunk after it. -/
def room (maxSize : ℕ) : List ℕ → ℕ
  | first :: second :: rest =>
    (if 2 ≤ second - first then maxSize - (second - first) else 0) + maxSize * wide (second :: rest)
  | _ => 0

theorem room_le (maxSize : ℕ) (boundaries : List ℕ) :
    room maxSize boundaries ≤ maxSize * wide boundaries := by
  match boundaries with
  | [] | [_] => exact Nat.zero_le _
  | first :: second :: rest =>
    rw [room, wide_cons_cons, Nat.mul_add]
    split <;> omega

theorem wide_drop_le (boundaries : List ℕ) (count : ℕ) :
    wide (boundaries.drop count) ≤ wide boundaries := by
  induction count generalizing boundaries with
  | zero => exact le_rfl
  | succ count ih =>
    match boundaries with
    | [] => exact le_rfl
    | [only] => simp [wide, ranges]
    | first :: second :: rest =>
      rw [drop_succ_cons, wide_cons_cons]
      exact (ih _).trans (Nat.le_add_right ..)

variable {data : Bytes} {config : LayerConfig} {overflowChecks : Bool} {result : List ℕ}

/-- A turn drops no more boundaries than it uses up of the room. -/
theorem length_turn {state next : Caterpillar.State}
    (partitions : Partitions data.length state.result)
    (inside : state.i < state.result.length - 1)
    (done : turn overflowChecks data config state = .ok next) :
    state.result.length + room config.maxSize (next.result.drop next.i) ≤
      next.result.length + room config.maxSize (state.result.drop state.i) := by
  have here : state.result.drop state.i =
      state.result.getD state.i 0 :: state.result.drop (state.i + 1) := by
    rw [getD_eq_getElem _ _ (by omega), drop_eq_getElem_cons]
  have after : state.result.drop (state.i + 1) =
      state.result.getD (state.i + 1) 0 :: state.result.drop (state.i + 2) := by
    rw [getD_eq_getElem _ _ (by omega), drop_eq_getElem_cons]
  rcases turn_cases partitions inside done with
    rfl | ⟨endIdx, further, endInside, rfl, large, small⟩
  · dsimp only
    have less := room_le config.maxSize (state.result.drop (state.i + 1))
    rw [here, after, room, ← after]
    omega
  · dsimp only
    have last : state.result.drop endIdx =
        state.result.getD endIdx 0 :: state.result.drop (endIdx + 1) := by
      rw [getD_eq_getElem _ _ endInside, drop_eq_getElem_cons]
    have collapsed : (state.result.take (state.i + 1) ++ state.result.drop endIdx).drop state.i =
        state.result.getD state.i 0 :: state.result.drop endIdx := by
      rw [drop_append_of_le_length (by rw [length_take]; omega), drop_take, here,
        Nat.add_sub_cancel_left]
      rfl
    have later : wide (state.result.drop endIdx) ≤ wide (state.result.drop (state.i + 1)) := by
      have dropped := wide_drop_le (state.result.drop (state.i + 1)) (endIdx - (state.i + 1))
      rwa [drop_drop, Nat.add_sub_cancel' further.le] at dropped
    have grown := getD_add_le partitions.increasing further.le endInside
    have less := Nat.mul_le_mul_left config.maxSize later
    have ordered := getD_add_le partitions.increasing (show state.i ≤ state.i + 1 by omega)
      (by omega)
    rw [collapsed, last, room, ← last, if_pos (by omega), here, after, room, ← after, if_pos large,
      length_append, length_take, length_drop]
    omega

theorem length_caterpillarLoop {fuel : ℕ} (state : Caterpillar.State)
    (partitions : Partitions data.length state.result)
    (done : loop overflowChecks data config fuel state = .ok result) :
    state.result.length ≤ result.length + room config.maxSize (state.result.drop state.i) := by
  induction fuel generalizing state with
  | zero =>
    obtain rfl := Outcome.ok.inj done
    exact Nat.le_add_right ..
  | succ fuel ih =>
    unfold loop at done
    split at done
    · next inside =>
      obtain ⟨next, turned, done⟩ := bind_eq_ok_iff.mp done
      have step := length_turn partitions inside turned
      have later := ih next (partitions.coarsen (turn_eq_ok turned).1) done
      omega
    · obtain rfl := Outcome.ok.inj done
      exact Nat.le_add_right ..

/-- The phase drops at most the maximum of boundaries for each wide chunk. -/
theorem length_caterpillar (partitions : Partitions data.length boundaries)
    (done : process overflowChecks data config boundaries = .ok result) :
    boundaries.length ≤ result.length + config.maxSize * wide boundaries := by
  unfold process at done
  split at done
  · obtain rfl := Outcome.ok.inj done
    exact Nat.le_add_right ..
  · obtain ⟨needed, -, done⟩ := bind_eq_ok_iff.mp done
    split at done
    · obtain rfl := Outcome.ok.inj done
      exact Nat.le_add_right ..
    · calc boundaries.length
          ≤ result.length + room config.maxSize (boundaries.drop 0) :=
            length_caterpillarLoop ⟨boundaries, 0⟩ partitions done
        _ ≤ result.length + config.maxSize * wide boundaries :=
            Nat.add_le_add_left (room_le config.maxSize boundaries) _

end Caterpillar

section
variable {hash : Bytes → ChunkId} {data : Bytes} {config : LayerConfig}

theorem length_diffbitLoop (state : Diffbit.State) :
    state.boundaries.length ≤ (Diffbit.loop config turns state).boundaries.length + turns := by
  induction turns generalizing state with
  | zero => exact le_rfl
  | succ turns ih =>
    unfold Diffbit.loop
    split
    · exact Nat.le_add_right ..
    · next mergeIdx _ _ =>
      split
      · have later := ih (state.remove mergeIdx)
        have removed : state.boundaries.length ≤
            (state.remove mergeIdx).boundaries.length + 1 := by
          simp only [Diffbit.State.remove, length_eraseIdx]
          split <;> omega
        omega
      · exact Nat.le_add_right ..

variable (hash data config) in
theorem length_merge (boundaries : List ℕ) :
    boundaries.length ≤ (Diffbit.merge hash data config boundaries).length + 1000 := by
  unfold Diffbit.merge
  split
  · exact Nat.le_add_right ..
  · exact length_diffbitLoop Diffbit.maxIterations ⟨boundaries, _⟩

end

section Layers
variable {hash : Bytes → ChunkId} {config : ChonkersConfig}
variable (hash) in
/-- On zeros a layer leaves almost all boundaries. What is missing afterwards depends on
what was missing before, but not on the length. -/
theorem length_processPhases {layerConfig : LayerConfig} {missing : ℕ} (nonempty : 0 < length)
    (positive : 0 < layerConfig.maxSize) (partitions : Partitions length boundaries)
    (most : length + 1 ≤ boundaries.length + missing) :
    ∃ result, processPhases false hash (zeros length) layerConfig boundaries = .ok result ∧
      Partitions length result ∧
      length + 1 ≤ result.length + ((missing + 7000) * (1 + layerConfig.maxSize) + 1000) := by
  have balanced := partitions.coarsen
    (Balancing.coarsens_process hash (zeros length) layerConfig boundaries)
  have balancing := length_balancing hash layerConfig partitions
  obtain ⟨collapsed, collapses⟩ := exists_process_eq (zeros length) layerConfig
    (Balancing.process hash (zeros length) layerConfig boundaries)
  have coarser := balanced.coarsen (coarsens_process collapses)
  have collapsing := length_caterpillar ((length_zeros length).symm ▸ balanced) collapses
  have merged := coarser.coarsen (Diffbit.coarsens_merge hash (zeros length) layerConfig collapsed)
  have merging := length_merge hash (zeros length) layerConfig collapsed
  obtain ⟨splits, kept, -⟩ := Diffbit.splitOversized_eq_ok hash (zeros length) positive merged
  have splitting := length_le_subdivide (Diffbit.splitPoints hash (zeros length) layerConfig)
    (Diffbit.merge hash (zeros length) layerConfig collapsed)
  refine ⟨_, ?_, kept, ?_⟩
  · obtain ⟨next, rest, same⟩ := coarser.eq_cons_cons nonempty
    rw [processPhases, collapses, ok_bind, Diffbit.process_eq (by simp [same]), splits]
  · have few := balanced.length_add_wide_le
    have product := Nat.mul_le_mul_left layerConfig.maxSize (show
      wide (Balancing.process hash (zeros length) layerConfig boundaries) ≤ missing + 7000 by omega)
    rw [Nat.mul_add, Nat.mul_one, Nat.mul_comm _ layerConfig.maxSize]
    omega

variable (hash) in
/-- **Few boundaries are dropped.** On zeros the layers drop a number of boundaries that does
not depend on the length. -/
theorem exists_length_processLayers (layers : List ℕ)
    (positive : ∀ idx ∈ layers, ∀ layer, config.layer false idx = .ok layer → 0 < layer.maxSize)
    (missing : ℕ) :
    ∃ bound, ∀ length boundaries, 0 < length → Partitions length boundaries →
      length + 1 ≤ boundaries.length + missing →
      ∃ result, processLayers false hash config (zeros length) layers boundaries = .ok result ∧
        Partitions length result ∧ length + 1 ≤ result.length + bound := by
  induction layers generalizing missing with
  | nil =>
    refine ⟨missing, ?_⟩
    intro length boundaries _ partitions most
    exact ⟨boundaries, rfl, partitions, most⟩
  | cons idx rest ih =>
    obtain ⟨layer, layerEq⟩ := config.exists_layer_eq idx
    obtain ⟨bound, later⟩ :=
      ih (forall_mem_of_forall_mem_cons positive) ((missing + 7000) * (1 + layer.maxSize) + 1000)
    refine ⟨bound, ?_⟩
    intro length boundaries nonempty partitions most
    obtain ⟨next, phases, kept, left⟩ := length_processPhases hash nonempty
      (positive idx mem_cons_self layer layerEq) partitions most
    obtain ⟨result, done⟩ := later length next nonempty kept left
    refine ⟨result, ?_, done.2⟩
    rw [processLayers, processLayer, layerEq, ok_bind, phases, ok_bind]
    exact done.1

end Layers

section Chunks
variable {hash : Bytes → ChunkId} {data : Bytes}

theorem length_le_of_wide (partitions : Partitions length boundaries)
    (large : ∀ range ∈ (ranges boundaries).dropLast, 2 ≤ range.2 - range.1) :
    2 * boundaries.length ≤ length + 3 := by
  have count := partitions.length_add_wide_le
  have most : (ranges boundaries).dropLast.length ≤ wide boundaries := by
    rw [wide, ← countP_eq_length.mpr fun range member => decide_eq_true (large range member)]
    exact (dropLast_sublist _).countP_le
  rw [length_dropLast, length_ranges] at most
  omega

variable {overflowChecks : Bool} {config : ChonkersConfig} {chunks : List Chunk}

theorem chunk_eq_ok (nonempty : data ≠ [])
    (done : chunk overflowChecks hash config data = .ok chunks) :
    ∃ boundaries, processLayers overflowChecks hash config data (List.range config.numLayers)
        (List.range (data.length + 1)) = .ok boundaries ∧
      Partitions data.length boundaries ∧ chunks = chunksOf hash data boundaries := by
  rw [chunk_eq_bind nonempty] at done
  obtain ⟨boundaries, returned, same⟩ := bind_eq_ok_iff.mp done
  exact ⟨boundaries, chunkBoundaries_eq nonempty ▸ returned,
    partitions_chunkBoundaries nonempty returned, (Outcome.ok.inj same).symm⟩

/-- Where a layer's maximum is zero, nothing but the empty string is chunked. -/
theorem eq_nil_of_chunk_eq_ok {idx : ℕ} (inside : idx < config.numLayers) {layer : LayerConfig}
    (layerEq : config.layer overflowChecks idx = .ok layer) (zero : layer.maxSize = 0)
    (done : chunk overflowChecks hash config data = .ok chunks) : data = [] := by
  by_contra nonempty
  have positive := length_pos_iff.mpr nonempty
  obtain ⟨boundaries, layered, -⟩ := chunk_eq_ok nonempty done
  rw [range_eq_append inside.le, processLayers_append,
    show config.numLayers - idx = config.numLayers - (idx + 1) + 1 by omega,
    range'_succ] at layered
  obtain ⟨before, earlier, layered⟩ := bind_eq_ok_iff.mp layered
  rw [processLayers, processLayer, layerEq, ok_bind, processPhases_eq_panic_of_zero
    (partitions_processLayers positive (partitions_range _) earlier) positive zero] at layered
  contradiction

theorem all_dropLast_chunksOf_iff {minSize : ℕ} (partitions : Partitions data.length boundaries) :
    (∀ chunk ∈ (chunksOf hash data boundaries).dropLast, minSize ≤ chunk.length) ↔
      ∀ range ∈ (ranges boundaries).dropLast, minSize ≤ range.2 - range.1 := by
  calc _ ↔ ∀ size ∈ ((chunksOf hash data boundaries).map Chunk.length).dropLast,
        minSize ≤ size := by
        rw [← map_dropLast, forall_mem_map]
    _ ↔ _ := by
        rw [map_length_chunksOf partitions, ← map_dropLast, forall_mem_map]

end Chunks

variable (hash : Bytes → ChunkId) (config : ChonkersConfig)

/-- **The minimum size is kept only where it is one.** For every configuration and every
hash function: in every build, the chunks but the last have the last layer's minimum size
where this is one, or where the last layers have turns enough to merge the data into one
chunk. In a build without overflow checks they have it for all data exactly if the minimum
is one, or if a layer's maximum is zero and no data but the empty string is chunked at
all. -/
theorem minimum_size_iff :
    (∀ overflowChecks data last chunks,
      config.layer overflowChecks (config.numLayers - 1) = .ok last →
      chunk overflowChecks hash config data = .ok chunks →
      last.minSize = 1 ∨ config.MergesAll overflowChecks data.length →
      ∀ chunk ∈ chunks.dropLast, last.minSize ≤ chunk.length) ∧
    ∀ last, config.layer false (config.numLayers - 1) = .ok last →
      ((∀ data chunks, chunk false hash config data = .ok chunks →
        ∀ chunk ∈ chunks.dropLast, last.minSize ≤ chunk.length) ↔
      last.minSize = 1 ∨ ∃ idx < config.numLayers, ∃ layer,
        config.layer false idx = .ok layer ∧ layer.maxSize = 0) := by
  have kept (overflowChecks : Bool) (data : Bytes) (last : LayerConfig) (chunks : List Chunk)
      (lastEq : config.layer overflowChecks (config.numLayers - 1) = .ok last)
      (done : chunk overflowChecks hash config data = .ok chunks)
      (condition : last.minSize = 1 ∨ config.MergesAll overflowChecks data.length) :
      ∀ chunk ∈ chunks.dropLast, last.minSize ≤ chunk.length := by
    by_cases nonempty : data = []
    · subst nonempty
      obtain rfl := Outcome.ok.inj done
      simp
    · obtain ⟨boundaries, layered, partitions, rfl⟩ := chunk_eq_ok nonempty done
      rw [all_dropLast_chunksOf_iff partitions]
      rcases condition with one | mergesAll
      · intro range member
        have bounds := partitions.range_le (dropLast_subset _ member)
        omega
      · rw [processLayers_eq_pair (length_pos_iff.mpr nonempty) mergesAll layered]
        simp [ranges]
  refine ⟨kept, ?_⟩
  intro last lastEq
  constructor
  · intro always
    by_contra neither
    obtain ⟨notOne, positive⟩ := not_or.mp neither
    have minimum := ChonkersConfig.one_le_minSize lastEq
    obtain ⟨bound, few⟩ := exists_length_processLayers hash (List.range config.numLayers)
      (fun idx member layer layerEq => Nat.pos_of_ne_zero fun zero =>
        positive ⟨idx, mem_range.mp member, layer, layerEq, zero⟩) 0
    obtain ⟨boundaries, layered, partitions, many⟩ := few (2 * bound + 2)
      (List.range (2 * bound + 3)) (by omega) (partitions_range _) (by simp)
    have chunked : chunk false hash config (zeros (2 * bound + 2)) =
        .ok (chunksOf hash (zeros (2 * bound + 2)) boundaries) := by
      rw [chunk, if_neg (by simp [zeros]), length_zeros, bind_eq, layered, ok_bind,
        boundariesToChunks_eq (by rwa [length_zeros]) (by simp)]
    have sizes := (all_dropLast_chunksOf_iff (by rwa [length_zeros])).mp (always _ _ chunked)
    have half := length_le_of_wide partitions fun range member => by
      have size := sizes range member
      omega
    omega
  · rintro (one | ⟨idx, inside, layer, layerEq, zero⟩) data chunks done
    · exact kept false data last chunks lastEq done (.inl one)
    · obtain rfl := eq_nil_of_chunk_eq_ok inside layerEq zero done
      obtain rfl := Outcome.ok.inj done
      simp

def zerosHash (data : Bytes) : ChunkId :=
  if data = zeros 8 then
    digest 0xcb55b1122aacfd9023d0e352dc649ce3a885262dc5acb8c03149567391a9e071
  else if data = zeros 7 then
    digest 0x0098ed572371aadef16998757cee76a427b9562c84b2cefdd1fea285a081ab0b
  else if data = zeros 6 then
    digest 0xa14b4095c0438a3b7c3e3a978477abf32287615dff22557605cba3e7095abd3d
  else if data = zeros 5 then
    digest 0x0f88d45671fc9c336611f61d7a74b50d7d7577a6dcb3dbac12794d84ca6ec9cd
  else if data = zeros 3 then
    digest 0xfc150a89f1f338dcdeeccceb851d02cf366e9fb526c693dfa855370af05f5291
  else if data = zeros 62 then
    digest 0xede9ee69c9bedb1d04741b4eeeb55ae03d3870436e84bedc8d355200ddd3e247
  else if data = zeros 64 then
    digest 0x556aab8650f00b0204eefd1af8507c4dad1a08a430a609d996866a637669004d
  else if data = zeros 70 then
    digest 0x7cab53bcc5310d82380fed5e58cb16738bc4a11e0209df1fc4fbb68a4e6b1662
  else if data = zeros 195 then
    digest 0x5f2cf8f77d79c0cedb1c91b3d0f9b7f819c9ff1c6d017780ac35a05b415a2f1c
  else if data = zeros 201 then
    digest 0x45c327a0cbfc73531aa167e7eb27a3fb97f1dd170a2b3ea41ebd38c3d6e8f4df
  else digest 0

def narrowConfig : ChonkersConfig :=
  { ChonkersConfig.default with
    numLayers := 1, baseTargetSize := 64, layerMultiplier := 2
    minSizeRatio := 0.0625, maxSizeRatio := 1.01 }

/-- What the equivalence says for a single layer. -/
theorem minimum_size_iff_narrow :
    narrowConfig.layer false 0 = .ok (narrowConfig.layerConfig 0) ∧
      ((∀ data chunks, chunk false zerosHash narrowConfig data = .ok chunks →
        ∀ chunk ∈ chunks.dropLast, (narrowConfig.layerConfig 0).minSize ≤ chunk.length) ↔
      (narrowConfig.layerConfig 0).minSize = 1 ∨ ∃ idx < 1, ∃ layer,
        narrowConfig.layer false idx = .ok layer ∧ layer.maxSize = 0) :=
  ⟨rfl, (minimum_size_iff zerosHash narrowConfig).2 _ rfl⟩

section

set_option maxRecDepth 10000

/-- The balancing phase merges four kittens of 65 zeros. -/
theorem balancing_zeros :
    Balancing.process zerosHash (zeros 65) (narrowConfig.layerConfig 0) (List.range 66) =
      0 :: List.range' 2 59 ++ [64, 65] := by
  decide +kernel

theorem computePriorities_zeros :
    Diffbit.computePriorities zerosHash (zeros 65) (0 :: List.range' 2 59 ++ [64, 65]) =
      [Diffbit.maxPriority, 5, 209] ++ List.replicate 57 49 ++ [18, Diffbit.maxPriority] := by
  decide +kernel

theorem diffbit_zeros :
    Diffbit.merge zerosHash (zeros 65) (narrowConfig.layerConfig 0)
      (0 :: List.range' 2 59 ++ [64, 65]) = [0, 3, 65] := by
  rw [Diffbit.merge_eq _ _ _ (by decide), computePriorities_zeros]
  decide +kernel

theorem processLayers_zeros :
    processLayers false zerosHash narrowConfig (zeros 65) [0] (List.range 66) = .ok [0, 3, 65] := by
  have layerEq : narrowConfig.layer false 0 = .ok (narrowConfig.layerConfig 0) := rfl
  have collapse : process false (zeros 65) (narrowConfig.layerConfig 0)
      (0 :: List.range' 2 59 ++ [64, 65]) = .ok (0 :: List.range' 2 59 ++ [64, 65]) := by
    rfl
  have split : Diffbit.splitOversized zerosHash (zeros 65) (narrowConfig.layerConfig 0)
      [0, 3, 65] = .ok [0, 3, 65] := by
    rfl
  rw [processLayers, processLayer, layerEq, ok_bind, processPhases, balancing_zeros,
    collapse, ok_bind, Diffbit.process_eq (by decide), diffbit_zeros, split]
  rfl

end

/-- A first chunk of 3 bytes is returned where the minimum is 4. -/
theorem undersized_chunk_returned :
    narrowConfig.validate = .ok () ∧
      narrowConfig.layer false 0 = .ok (narrowConfig.layerConfig 0) ∧
      (narrowConfig.layerConfig 0).minSize = 4 ∧
      chunk false zerosHash narrowConfig (zeros 65) =
        .ok (chunksOf zerosHash (zeros 65) [0, 3, 65]) ∧
      (chunksOf zerosHash (zeros 65) [0, 3, 65]).map Chunk.length = [3, 62] := by
  refine ⟨rfl, rfl, rfl, ?_, rfl⟩
  have layers : List.range narrowConfig.numLayers = [0] := rfl
  rw [chunk, if_neg (by decide), layers, length_zeros, bind_eq, processLayers_zeros]
  rfl

end Warp.Chonkers
