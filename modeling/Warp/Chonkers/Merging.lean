import Warp.Chonkers.Chunker

/-! # The merging loop

A turn of the diffbit phase removes the first boundary of the lowest priority among those that can
be removed (`Diffbit.head?_findMergeCandidates`), so the loop can be followed on a list
(`Diffbit.loop_eq`). Data that fits one chunk becomes one chunk, as long as the thousand turns of
each layer that accepts it suffice (`processLayers_eq_pair`).
-/

namespace Warp.Chonkers

open Boundaries List Outcome ChunkWeight

variable {boundaries : List ℕ} {result : List ℕ}

namespace Diffbit

variable (config : LayerConfig)

/-- A boundary between two others can be removed. -/
def Removable (before boundary after priority : ℕ) : Prop :=
  (boundary - before < config.minSize ∨ after - boundary < config.minSize ∨
      priority < maxPriority / 2) ∧
    boundary - before + (after - boundary) ≤ config.maxSize
  deriving Decidable

/-- The index and the priority of the first removable boundary of the lowest priority,
from the boundary with index `i` on. -/
def lowestFrom : ℕ → ℕ → ℕ → ℕ → List (ℕ × ℕ) → Option (ℕ × ℕ)
  | _, _, _, _, [] => none
  | before, i, boundary, priority, (after, afterPriority) :: rest =>
    let later := lowestFrom boundary (i + 1) after afterPriority rest
    if Removable config before boundary after priority then
      some (later.elim (i, priority) fun found =>
        if priority ≤ found.2 then (i, priority) else found)
    else later

def lowest : List (ℕ × ℕ) → Option (ℕ × ℕ)
  | (first, _) :: (second, priority) :: rest => lowestFrom config first 1 second priority rest
  | _ => none

def passOn {α : Type} : List (ℕ × ℕ) → (List (ℕ × ℕ) → α) → α
  | [], next => next []
  | (boundary, priority) :: rest, next =>
    passOn rest fun rest => next ((boundary, priority) :: rest)

def mergeLowest : ℕ → List (ℕ × ℕ) → List (ℕ × ℕ)
  | 0, pairs => pairs
  | turns + 1, pairs =>
    match lowest config pairs with
    | none => pairs
    | some (i, _) => passOn (pairs.eraseIdx i) (mergeLowest turns)

def State.ofPairs (pairs : List (ℕ × ℕ)) : State := ⟨pairs.map Prod.fst, pairs.map Prod.snd⟩

variable {config} (pairs : List (ℕ × ℕ)) {state : State}

theorem passOn_eq {α : Type} (next : List (ℕ × ℕ) → α) :
    passOn pairs next = next pairs := by
  induction pairs generalizing next with
  | nil => rfl
  | cons pair rest ih => exact ih _

theorem head?_orderedInsert {α : Type*} (relation : α → α → Prop) [DecidableRel relation]
    (entry : α) (entries : List α) :
    (entries.orderedInsert relation entry).head? =
      some (entries.head?.elim entry fun first =>
        if relation entry first then entry else first) := by
  cases entries with
  | nil => rfl
  | cons first rest =>
    rw [orderedInsert_cons, head?_cons, Option.elim_some, apply_ite List.head?, apply_ite some]
    rfl

/-- The candidates from an index on, sorted, start with the lowest one. -/
theorem head?_candidates (config : LayerConfig) (front : List (ℕ × ℕ))
    (before boundary : ℕ × ℕ) (rest : List (ℕ × ℕ)) :
    let state := State.ofPairs (front ++ before :: boundary :: rest)
    ((((List.range' (front.length + 1) rest.length).filter (isMergeCandidate config state)).map
      fun i => (i, state.priorities.getD i 0)).insertionSort
        fun left right => left.2 ≤ right.2).head? =
      lowestFrom config before.1 (front.length + 1) boundary.1 boundary.2 rest := by
  induction rest generalizing front before boundary with
  | nil => rfl
  | cons after rest ih =>
    extract_lets state
    have later := ih (front ++ [before]) boundary after
    simp only [append_assoc, singleton_append, length_append, length_singleton] at later
    have getBoundary (k : ℕ) : state.boundaries.getD (front.length + k) 0 =
        ((before :: boundary :: after :: rest).map Prod.fst).getD k 0 := by
      simp [state, State.ofPairs, getElem?_append_right]
    have getPriority : state.priorities.getD (front.length + 1) 0 = boundary.2 := by
      simp [state, State.ofPairs]
    have candidate : isMergeCandidate config state (front.length + 1) =
        decide (Removable config before.1 boundary.1 after.1 boundary.2) := by
      have start := getBoundary 0
      have middle := getBoundary 1
      have stop := getBoundary 2
      simp only [isMergeCandidate, Nat.add_sub_cancel, Nat.add_assoc, Nat.reduceAdd]
      rw [getPriority, middle, stop, ← Nat.add_zero front.length, start]
      rfl
    rw [length_cons, range'_succ, filter_cons, candidate, lowestFrom]
    simp only [decide_eq_true_eq]
    split
    · rw [map_cons, insertionSort_cons, head?_orderedInsert, later, getPriority]
    · exact later

theorem mem_findMergeCandidates_iff {i : ℕ} :
    i ∈ findMergeCandidates config state ↔
      0 < i ∧ i + 1 < state.boundaries.length ∧ isMergeCandidate config state i = true := by
  unfold findMergeCandidates
  split
  · simp only [not_mem_nil, false_iff]
    omega
  · dsimp only
    rw [(perm_insertionSort ..).map Prod.fst |>.mem_iff, map_map]
    simp only [mem_map, mem_filter, mem_range'_1, Function.comp_apply, exists_eq_right]
    rw [← and_assoc]
    apply and_congr_left
    omega

variable (config) in
/-- **Lowest first.** The loop removes the first boundary of the lowest priority. -/
theorem head?_findMergeCandidates :
    (findMergeCandidates config (State.ofPairs pairs)).head? =
      (lowest config pairs).map Prod.fst := by
  match pairs with
  | [] | [_] | [_, _] => rfl
  | first :: second :: third :: rest =>
    have head := head?_candidates config [] first second (third :: rest)
    have inner : (State.ofPairs (first :: second :: third :: rest)).boundaries.length - 2 =
        (third :: rest).length := by
      simp [State.ofPairs]
    rw [findMergeCandidates, if_neg (by simp [State.ofPairs]), List.head?_map, inner]
    exact congrArg (Option.map Prod.fst) head

theorem loop_eq (turns : ℕ) (pairs : List (ℕ × ℕ)) :
    loop config turns (State.ofPairs pairs) = State.ofPairs (mergeLowest config turns pairs) := by
  induction turns generalizing pairs with
  | zero => rfl
  | succ turns ih =>
    have head := head?_findMergeCandidates config pairs
    rw [loop, mergeLowest]
    cases found : lowest config pairs with
    | none =>
      rw [found, Option.map_none, head?_eq_none_iff] at head
      rw [head]
    | some lowest =>
      rw [found, Option.map_some] at head
      obtain ⟨others, candidates⟩ := head?_eq_some_iff.mp head
      have inner := mem_findMergeCandidates_iff.mp (candidates ▸ mem_cons_self)
      have removed : (State.ofPairs pairs).remove lowest.1 =
          State.ofPairs (pairs.eraseIdx lowest.1) := by
        simp only [State.remove, State.ofPairs, eraseIdx_map]
      rw [candidates]
      dsimp only
      rw [if_pos ⟨inner.1, by omega⟩, removed, ih, passOn_eq]

variable (config) in
theorem merge_eq (hash : Bytes → ChunkId) (data : Bytes) (many : 3 ≤ boundaries.length) :
    merge hash data config boundaries = (mergeLowest config maxIterations
      (boundaries.zip (computePriorities hash data boundaries))).map Prod.fst := by
  have same : (computePriorities hash data boundaries).length = boundaries.length :=
    length_mapIdx
  have start : State.ofPairs (boundaries.zip (computePriorities hash data boundaries)) =
      ⟨boundaries, computePriorities hash data boundaries⟩ := by
    rw [State.ofPairs, map_fst_zip same.ge, map_snd_zip same.le]
  rw [merge, if_neg (by omega), ← start, loop_eq]
  rfl

variable {hash : Bytes → ChunkId} {data : Bytes} {offset : ℕ}

theorem foldl_diffBits_le (pairs : List (UInt8 × UInt8)) (bits : ℕ) :
    pairs.foldl (fun bits pair => bits + (pair.1 ^^^ pair.2).toBitVec.cpop.toNat) bits ≤
      bits + 8 * pairs.length := by
  induction pairs generalizing bits with
  | nil => exact le_rfl
  | cons pair rest ih =>
    have here : (pair.1 ^^^ pair.2).toBitVec.cpop.toNat ≤ 8 := BitVec.toNat_cpop_le _
    have later := ih (bits + (pair.1 ^^^ pair.2).toBitVec.cpop.toNat)
    rw [foldl_cons, length_cons]
    omega

variable (hash) in
theorem boundaryPriority_lt (inner : 0 < offset) (inside : offset < data.length) :
    boundaryPriority hash data offset < maxPriority / 2 := by
  unfold boundaryPriority
  rw [if_neg (by omega)]
  extract_lets before after diffBits
  have few : (before.reverse.zip after).length ≤ 8 := by
    simp only [before, after, Bytes.slice, length_zip, length_reverse, length_take]
    omega
  have bits : diffBits ≤ 0 + 8 * (before.reverse.zip after).length := foldl_diffBits_le _ 0
  have weight : ofBoundary hash offset data >>> 56 < 256 := by
    rw [Nat.shiftRight_eq_div_pow]
    exact Nat.div_lt_of_lt_mul (fromHash_lt _)
  have sum : diffBits + ofBoundary hash offset data >>> 56 < 64 + 256 :=
    Nat.add_lt_add_of_le_of_lt (by omega) weight
  exact (min_le_left _ _).trans_lt (sum.trans (by decide))

/-- All inner priorities are low. -/
def State.Light (state : State) : Prop :=
  ∀ i, 0 < i → i + 1 < state.boundaries.length → state.priorities.getD i 0 < maxPriority / 2

theorem State.Light.remove (light : state.Light) {idx : ℕ} (inside : idx < state.boundaries.length)
    : (state.remove idx).Light := by
  intro i inner bound
  simp only [State.remove, length_eraseIdx, if_pos inside] at bound
  simp only [State.remove, getD_eq_getElem?_getD, getElem?_eraseIdx]
  split
  · exact getD_eq_getElem?_getD .. ▸ light i inner (by omega)
  · exact getD_eq_getElem?_getD .. ▸ light (i + 1) (Nat.succ_pos i) (by omega)

variable (hash) in
theorem light_computePriorities (partitions : Partitions data.length boundaries) :
    State.Light ⟨boundaries, computePriorities hash data boundaries⟩ := by
  intro i inner inside
  dsimp only at inside ⊢
  have bounds := partitions.getD_bounds (show i < boundaries.length by omega)
  rw [getD_eq_getElem _ _ (by omega)] at bounds
  rw [computePriorities, getD_eq_getElem _ _ (by rw [length_mapIdx]; omega),
    getElem_mapIdx, if_neg (by omega)]
  exact boundaryPriority_lt hash (by omega) (by omega)

theorem length_loop_le {length : ℕ} (small : length ≤ config.maxSize) (turns : ℕ) (state : State)
    (partitions : Partitions length state.boundaries) (light : state.Light) :
    (loop config turns state).boundaries.length ≤ max 2 (state.boundaries.length - turns) := by
  induction turns generalizing state with
  | zero => exact le_max_right _ _
  | succ turns ih =>
    by_cases few : state.boundaries.length ≤ 2
    · have shorter := (coarsens_loop config (turns + 1) state).sublist.length_le
      omega
    · have first : 1 ∈ findMergeCandidates config state := by
        refine mem_findMergeCandidates_iff.mpr ⟨Nat.one_pos, by omega, ?_⟩
        have left := getD_add_le partitions.increasing (Nat.zero_le 1) (by omega)
        have right := getD_add_le partitions.increasing (show 1 ≤ 2 by decide) (by omega)
        have bound := partitions.getD_bounds (show 2 < state.boundaries.length by omega)
        simp only [isMergeCandidate, Nat.sub_self, Nat.reduceAdd, decide_eq_true_eq]
        exact ⟨.inr (.inr (light 1 Nat.one_pos (by omega))), by omega⟩
      cases found : findMergeCandidates config state with
      | nil => simp [found] at first
      | cons lowest others =>
        have inner := mem_findMergeCandidates_iff.mp (found ▸ mem_cons_self)
        have removed : (state.remove lowest).boundaries.length =
            state.boundaries.length - 1 := by
          rw [State.remove, length_eraseIdx, if_pos (by omega)]
        have later := ih (state.remove lowest)
          (partitions.coarsen (coarsens_eraseIdx _ inner.1 inner.2.1))
          (light.remove (by omega))
        rw [loop, found]
        dsimp only
        rw [if_pos ⟨inner.1, by omega⟩]
        omega

/-- Data up to the maximum loses a thousand inner boundaries, if it has so many. -/
theorem length_process_le (nonempty : 0 < data.length) (small : data.length ≤ config.maxSize)
    (partitions : Partitions data.length boundaries)
    (done : process hash data config boundaries = .ok result) :
    result.length ≤ max 2 (boundaries.length - 1000) := by
  have merged := partitions.coarsen (coarsens_merge hash data config boundaries)
  have short : (merge hash data config boundaries).length ≤ max 2 (boundaries.length - 1000) := by
    unfold merge
    split
    · omega
    · exact length_loop_le small maxIterations ⟨boundaries, _⟩ partitions
        (light_computePriorities hash partitions)
  have whole : subdivide (splitPoints hash data config) (merge hash data config boundaries) =
      merge hash data config boundaries := by
    apply subdivide_eq_self
    intro range member
    have bounds := merged.range_le member
    rw [splitPoints, if_neg (by omega)]
  obtain ⟨next, rest, same⟩ := partitions.eq_cons_cons nonempty
  rw [process_eq (by simp [same]), (splitOversized_eq_ok hash data (by omega) merged).1,
    whole] at done
  obtain rfl := Outcome.ok.inj done
  exact short

end Diffbit

variable {overflowChecks : Bool} {hash : Bytes → ChunkId} {config : ChonkersConfig} {data : Bytes}
  {layers : List ℕ}
variable (config overflowChecks) in
/-- The last layers have turns enough to merge data of a length, which all of them accept
as one chunk. -/
def ChonkersConfig.MergesAll (length : ℕ) : Prop :=
  ∃ count ≤ config.numLayers, length ≤ 1000 * count + 1 ∧
    ∀ idx < config.numLayers, config.numLayers ≤ idx + count →
      ∀ layer, config.layer overflowChecks idx = .ok layer → length ≤ layer.maxSize

theorem range_eq_append {first total : ℕ} (inside : first ≤ total) :
    List.range total = List.range first ++ List.range' first (total - first) := by
  have whole := range'_append_1 (s := 0) (m := first) (n := total - first)
  rw [Nat.zero_add, Nat.add_sub_cancel' inside] at whole
  rw [range_eq_range', range_eq_range', whole]

theorem processLayers_append (front back : List ℕ) (boundaries : List ℕ) :
    processLayers overflowChecks hash config data (front ++ back) boundaries =
      (processLayers overflowChecks hash config data front boundaries).bind
        (processLayers overflowChecks hash config data back) := by
  induction front generalizing boundaries with
  | nil => rfl
  | cons layerIdx rest ih =>
    rw [cons_append, processLayers, processLayers, bind_assoc]
    exact congrArg _ (funext ih)

/-- What the phases return is a partition again. Data up to the maximum loses a thousand
inner boundaries, if it has so many. -/
theorem partitions_processPhases {layerConfig : LayerConfig} (nonempty : 0 < data.length)
    (partitions : Partitions data.length boundaries)
    (done : processPhases overflowChecks hash data layerConfig boundaries = .ok result) :
    Partitions data.length result ∧ (data.length ≤ layerConfig.maxSize →
      result.length ≤ max 2 (boundaries.length - 1000)) := by
  obtain ⟨collapsed, collapses, merged⟩ := bind_eq_ok_iff.mp done
  have coarser := (Balancing.coarsens_process hash data layerConfig boundaries).trans
    (Caterpillar.coarsens_process collapses)
  have partitions := partitions.coarsen coarser
  refine ⟨?_, fun small => ?_⟩
  · rcases Nat.eq_zero_or_pos layerConfig.maxSize with zero | positive
    · rw [Diffbit.process_eq_panic hash data zero nonempty partitions] at merged
      contradiction
    · obtain ⟨same, returned, kept, -⟩ := Diffbit.process_eq_ok hash data positive nonempty
        partitions
      obtain rfl := Outcome.ok.inj (returned.symm.trans merged)
      exact kept
  · have short := Diffbit.length_process_le nonempty small partitions merged
    exact short.trans (max_le_max le_rfl (Nat.sub_le_sub_right coarser.sublist.length_le 1000))

theorem partitions_processLayers (nonempty : 0 < data.length)
    (partitions : Partitions data.length boundaries)
    (done : processLayers overflowChecks hash config data layers boundaries = .ok result) :
    Partitions data.length result := by
  induction layers generalizing boundaries with
  | nil =>
    obtain rfl := Outcome.ok.inj done
    exact partitions
  | cons layerIdx rest ih =>
    obtain ⟨next, layered, done⟩ := bind_eq_ok_iff.mp done
    obtain ⟨layerConfig, -, phases⟩ := bind_eq_ok_iff.mp layered
    exact ih (partitions_processPhases nonempty partitions phases).1 done

theorem chunkBoundaries_eq (nonempty : data ≠ []) :
    chunkBoundaries overflowChecks hash config data = processLayers overflowChecks hash config data
      (List.range config.numLayers) (List.range (data.length + 1)) :=
  if_neg (by simpa using nonempty)

theorem partitions_chunkBoundaries (nonempty : data ≠ [])
    (done : chunkBoundaries overflowChecks hash config data = .ok boundaries) :
    Partitions data.length boundaries :=
  partitions_processLayers (length_pos_iff.mpr nonempty) (partitions_range _)
    (chunkBoundaries_eq nonempty ▸ done)

theorem chunk_eq_bind (nonempty : data ≠ []) :
    chunk overflowChecks hash config data =
      (chunkBoundaries overflowChecks hash config data).bind fun boundaries =>
        .ok (chunksOf hash data boundaries) := by
  rw [chunk, if_neg (by simpa using nonempty), bind_eq, ← chunkBoundaries_eq nonempty]
  cases done : chunkBoundaries overflowChecks hash config data with
  | ok boundaries =>
    exact boundariesToChunks_eq (partitions_chunkBoundaries nonempty done)
      (length_pos_iff.mpr nonempty)
  | error failure => rfl
  | panic => rfl

/-- Layers that accept the data as one chunk have a thousand turns each to merge it. -/
theorem length_processLayers_le (nonempty : 0 < data.length)
    (small : ∀ idx ∈ layers, ∀ layer, config.layer overflowChecks idx = .ok layer →
      data.length ≤ layer.maxSize) (partitions : Partitions data.length boundaries)
    (done : processLayers overflowChecks hash config data layers boundaries = .ok result) :
    result.length ≤ max 2 (boundaries.length - 1000 * layers.length) := by
  induction layers generalizing boundaries with
  | nil =>
    obtain rfl := Outcome.ok.inj done
    exact le_max_right _ _
  | cons layerIdx rest ih =>
    obtain ⟨next, layered, done⟩ := bind_eq_ok_iff.mp done
    obtain ⟨layerConfig, layerEq, phases⟩ := bind_eq_ok_iff.mp layered
    obtain ⟨kept, shorter⟩ := partitions_processPhases nonempty partitions phases
    have here := shorter (small layerIdx mem_cons_self layerConfig layerEq)
    have later := ih (forall_mem_of_forall_mem_cons small) kept done
    rw [length_cons]
    omega

/-- **One chunk.** Data for which the last layers have turns enough becomes one chunk. -/
theorem processLayers_eq_pair (nonempty : 0 < data.length)
    (mergesAll : config.MergesAll overflowChecks data.length)
    (done : processLayers overflowChecks hash config data (List.range config.numLayers)
      (List.range (data.length + 1)) = .ok boundaries) :
    boundaries = [0, data.length] := by
  obtain ⟨count, inside, enough, small⟩ := mergesAll
  have partitions := partitions_processLayers nonempty (partitions_range _) done
  rw [range_eq_append (Nat.sub_le config.numLayers count), Nat.sub_sub_self inside,
    processLayers_append] at done
  obtain ⟨before, earlier, done⟩ := bind_eq_ok_iff.mp done
  have between := partitions_processLayers nonempty (partitions_range _) earlier
  have many := between.length_add_wide_le
  have short := length_processLayers_le nonempty (fun idx member => small idx
    (by rw [mem_range'_1] at member; omega) (by rw [mem_range'_1] at member; omega))
    between done
  rw [length_range'] at short
  obtain ⟨next, rest, rfl⟩ := partitions.eq_cons_cons nonempty
  obtain rfl : rest = [] := by
    rw [← length_eq_zero_iff]
    simp only [length_cons] at short
    omega
  have last : next = data.length := by simpa using partitions.last
  rw [last]

end Warp.Chonkers
