import Warp.Chonkers.Config
import Warp.Foundation.Boundaries

/-! # Diffbit phase

The boundary of the lowest priority whose removal does not exceed the maximum size is removed, for
at most a thousand turns; then chunks above the maximum are split, at boundaries of high priority
near regular distances or at these. With a positive maximum the phase returns a partition without
chunks above it (`Diffbit.process_eq_ok`); with a maximum of zero it panics
(`Diffbit.process_eq_panic`).
-/

namespace Warp.Chonkers.Diffbit

open Boundaries Outcome
open List hiding ranges

structure State where
  boundaries : List ℕ
  priorities : List ℕ

def State.remove (state : State) (idx : ℕ) : State :=
  ⟨state.boundaries.eraseIdx idx, state.priorities.eraseIdx idx⟩

/-- Priority of the boundaries that are always kept, the largest 32-bit word. -/
def maxPriority : ℕ := 2 ^ 32 - 1

variable (hash : Bytes → ChunkId) (data : Bytes) (config : LayerConfig)

/-- Compute priority for a single boundary using XOR of surrounding bytes. -/
def boundaryPriority (offset : ℕ) : ℕ :=
  if offset = 0 ∨ offset ≥ data.length then maxPriority
  else
    let before := Bytes.slice data (offset - 8) offset
    let after := Bytes.slice data offset (min (offset + 8) data.length)
    let diffBits := (before.reverse.zip after).foldl
      (fun bits pair => bits + (pair.1 ^^^ pair.2).toBitVec.cpop.toNat) 0
    min (diffBits + ChunkWeight.ofBoundary hash offset data >>> 56) maxPriority

def computePriorities (boundaries : List ℕ) : List ℕ :=
  boundaries.mapIdx fun i offset =>
    if i = 0 ∨ i = boundaries.length - 1 then maxPriority else boundaryPriority hash data offset

/-- Boundary `i` can be removed: a neighbour is undersized or the priority is not the
highest, and the merged chunk is not too large. -/
def isMergeCandidate (state : State) (i : ℕ) : Bool :=
  let leftSize := state.boundaries.getD i 0 - state.boundaries.getD (i - 1) 0
  let rightSize := state.boundaries.getD (i + 1) 0 - state.boundaries.getD i 0
  (leftSize < config.minSize ∨ rightSize < config.minSize ∨
      state.priorities.getD i 0 < maxPriority / 2) ∧
    leftSize + rightSize ≤ config.maxSize

def findMergeCandidates (state : State) : List ℕ :=
  if state.boundaries.length < 3 then []
  else
    let candidates := ((List.range' 1 (state.boundaries.length - 2)).filter
      (isMergeCandidate config state)).map fun i => (i, state.priorities.getD i 0)
    (candidates.insertionSort fun left right => left.2 ≤ right.2).map Prod.fst

def loop : ℕ → State → State
  | 0, state => state
  | turns + 1, state =>
    match findMergeCandidates config state with
    | [] => state
    | mergeIdx :: _ =>
      if mergeIdx > 0 ∧ mergeIdx < state.boundaries.length - 1 then
        loop turns (state.remove mergeIdx)
      else state

def maxIterations : ℕ := 1000

/-- Find the best split point in a range: the last one of the highest priority. -/
def findBestSplit (start stop : ℕ) : ℕ :=
  (List.range' start (stop - start)).foldl (fun best offset =>
    if boundaryPriority hash data best ≤ boundaryPriority hash data offset then offset else best)
    start

/-- Place a split at a high-priority position near target location `i`. -/
def placeSplit (start stop targetChunkSize : ℕ) (splits : List ℕ) (i : ℕ) : List ℕ :=
  let lastSplit := splits.getLastD start
  let target := start + i * targetChunkSize
  let maxFromLast := lastSplit + config.maxSize
  let window := max (config.targetSize / 8) 32
  let searchStart := max (target - window) (lastSplit + 1)
  let searchEnd := min (min (target + window) maxFromLast) (stop - 1)
  if searchStart < searchEnd then
    let best := findBestSplit hash data searchStart searchEnd
    if best > lastSplit ∧ best < stop then splits ++ [best] else splits
  else if searchStart ≤ maxFromLast ∧ maxFromLast < stop then
    splits ++ [min maxFromLast (stop - 1)]
  else splits

def restSplits (stop : ℕ) : ℕ → ℕ → List ℕ
  | 0, _ => []
  | fuel + 1, pos =>
    if stop - pos > config.maxSize then
      let pos := pos + config.maxSize
      if pos < stop then pos :: restSplits stop fuel pos else restSplits stop fuel pos
    else []

def regularSplits (stop : ℕ) : ℕ → ℕ → List ℕ
  | 0, _ => []
  | fuel + 1, pos =>
    if pos < stop then pos :: regularSplits stop fuel (pos + config.maxSize) else []

def findSplitPoints (start stop : ℕ) : Outcome Error (List ℕ) :=
  let size := stop - start
  if size ≤ config.maxSize then .ok []
  else (Machine.divCeil size config.maxSize).bind fun numSplits =>
    let splits := (List.range' 1 (numSplits - 1)).foldl
      (placeSplit hash data config start stop (size / numSplits)) []
    match splits.getLast? with
    | some last => .ok (splits ++ restSplits config stop size last)
    | none => .ok (regularSplits config stop size (start + config.maxSize))

def splitChunk (range : ℕ × ℕ) : Outcome Error (List ℕ) :=
  if range.2 - range.1 > config.maxSize then
    (findSplitPoints hash data config range.1 range.2).bind fun splits => .ok (range.1 :: splits)
  else .ok [range.1]

def splitOversized (boundaries : List ℕ) : Outcome Error (List ℕ) :=
  (Outcome.forEach (splitChunk hash data config) (ranges boundaries)).bind fun parts =>
    let result := parts.flatten ++ boundaries.getLast?.toList
    .ok ((result.insertionSort (· ≤ ·)).destutter (· ≠ ·))

def process (boundaries : List ℕ) : Outcome Error (List ℕ) :=
  if boundaries.length < 2 then .ok boundaries
  else if boundaries.length < 3 then splitOversized hash data config boundaries
  else splitOversized hash data config
    (loop config maxIterations ⟨boundaries, computePriorities hash data boundaries⟩).boundaries

variable {hash data config} {boundaries : List ℕ} {length : ℕ}

variable (config) in
theorem coarsens_loop (turns : ℕ) (state : State) :
    Coarsens state.boundaries (loop config turns state).boundaries := by
  induction turns generalizing state with
  | zero => exact .refl _
  | succ turns ih =>
    unfold loop
    split
    · exact .refl _
    · next mergeIdx _ _ =>
      split
      · next inner =>
        have removed : Coarsens state.boundaries (state.remove mergeIdx).boundaries :=
          coarsens_eraseIdx state.boundaries inner.1 (by omega)
        exact removed.trans (ih _)
      · exact .refl _

/-- Neighbours in order, at most a distance apart. -/
def Within (distance left right : ℕ) : Prop := left < right ∧ right ≤ left + distance

variable (hash data) in
theorem findBestSplit_bounds {start stop : ℕ} (ordered : start < stop) :
    start ≤ findBestSplit hash data start stop ∧ findBestSplit hash data start stop < stop := by
  have kept (offsets : List ℕ) (inside : ∀ offset ∈ offsets, offset ∈ Set.Ico start stop)
      (best : ℕ) (bounds : best ∈ Set.Ico start stop) :
      offsets.foldl (fun best offset =>
        if boundaryPriority hash data best ≤ boundaryPriority hash data offset then offset
        else best) best ∈ Set.Ico start stop := by
    induction offsets generalizing best with
    | nil => exact bounds
    | cons offset rest ih =>
      rw [foldl_cons]
      apply ih (forall_mem_of_forall_mem_cons inside)
      split
      · exact inside offset mem_cons_self
      · exact bounds
  apply kept _ _ start ⟨le_rfl, ordered⟩
  intro offset member
  have bounds := mem_range'_1.mp member
  exact ⟨bounds.1, by omega⟩

/-- The splits of a chunk so far: in order, not too far apart, before its end. -/
structure Splits (config : LayerConfig) (start stop : ℕ) (splits : List ℕ) : Prop where
  chain : (start :: splits).IsChain (Within config.maxSize)
  after : start ≤ splits.getLastD start
  last : splits.getLastD start < stop

theorem Splits.push {start stop next : ℕ} {splits : List ℕ}
    (valid : Splits config start stop splits)
    (within : Within config.maxSize (splits.getLastD start) next) (inside : next < stop) :
    Splits config start stop (splits ++ [next]) := by
  have after := valid.after
  refine ⟨?_, ?_, ?_⟩
  · rw [← cons_append]
    refine isChain_append.mpr ⟨valid.chain, .singleton next, ?_⟩
    intro last lastEq other otherEq
    obtain rfl : next = other := by simpa using otherEq
    obtain rfl : splits.getLastD start = last := by
      rw [getLast?_cons, Option.mem_some_iff, ← getLastD_eq_getLast?] at lastEq
      exact lastEq
    exact within
  · rw [getLastD_concat]
    exact after.trans within.1.le
  · rw [getLastD_concat]
    exact inside

theorem Splits.place {start stop : ℕ} {splits : List ℕ} (valid : Splits config start stop splits)
    (positive : 0 < config.maxSize) (targetChunkSize i : ℕ) :
    Splits config start stop (placeSplit hash data config start stop targetChunkSize splits i) := by
  have last := valid.last
  unfold placeSplit
  extract_lets lastSplit target maxFromLast window searchStart searchEnd best
  split
  · next searching =>
    obtain ⟨lower, upper⟩ := findBestSplit_bounds hash data searching
    split
    · next inside => exact valid.push ⟨inside.1, by omega⟩ inside.2
    · exact valid
  · split
    · next fallback => exact valid.push ⟨by omega, by omega⟩ (by omega)
    · exact valid

variable (hash data) in
theorem Splits.foldl_place {start stop : ℕ} {splits : List ℕ}
    (valid : Splits config start stop splits) (positive : 0 < config.maxSize)
    (targetChunkSize : ℕ) (places : List ℕ) :
    Splits config start stop
      (places.foldl (placeSplit hash data config start stop targetChunkSize) splits) := by
  induction places generalizing splits with
  | nil => exact valid
  | cons i rest ih => exact ih (valid.place positive targetChunkSize i)

section
variable (positive : 0 < config.maxSize)
include positive

theorem isChain_restSplits {stop fuel pos : ℕ} (enough : stop - pos ≤ fuel) (open_ : pos < stop) :
    (pos :: restSplits config stop fuel pos ++ [stop]).IsChain (Within config.maxSize) := by
  induction fuel generalizing pos with
  | zero => omega
  | succ fuel ih =>
    unfold restSplits
    split
    · next large =>
      dsimp only
      rw [if_pos (by omega)]
      exact .cons_cons ⟨by omega, le_rfl⟩ (ih (by omega) (by omega))
    · next small => exact .cons_cons ⟨open_, by omega⟩ (.singleton stop)

omit positive in
theorem regularSplits_eq {stop pos : ℕ} (open_ : pos < stop) (fuel : ℕ) :
    regularSplits config stop fuel (pos + config.maxSize) = restSplits config stop fuel pos := by
  induction fuel generalizing pos with
  | zero => rfl
  | succ fuel ih =>
    unfold regularSplits restSplits
    by_cases large : pos + config.maxSize < stop
    · rw [if_pos large, if_pos (by omega), if_pos large, ih large]
    · rw [if_neg large, if_neg (by omega)]

variable (hash data) in
theorem findSplitPoints_eq_ok {start stop : ℕ} (large : config.maxSize < stop - start) :
    ∃ splits, findSplitPoints hash data config start stop = .ok splits ∧
      (start :: splits ++ [stop]).IsChain (Within config.maxSize) := by
  unfold findSplitPoints
  dsimp only
  rw [if_neg (by omega), Machine.divCeil, if_neg (by omega), ok_bind]
  have empty : Splits config start stop [] := ⟨.singleton start, le_rfl, show start < stop by omega⟩
  have placed := empty.foldl_place hash data positive
    ((stop - start) / ((stop - start + config.maxSize - 1) / config.maxSize))
    (List.range' 1 ((stop - start + config.maxSize - 1) / config.maxSize - 1))
  generalize List.foldl _ [] _ = splits at placed
  cases ending : splits.getLast? with
  | none =>
    refine ⟨_, rfl, ?_⟩
    rw [regularSplits_eq (by omega)]
    exact isChain_restSplits positive le_rfl (by omega)
  | some last =>
    have after := placed.after
    have inside := placed.last
    rw [List.getLastD_eq_getLast?, ending, Option.getD_some] at after inside
    have rest := isChain_restSplits positive (show stop - last ≤ stop - start by omega) inside
    rw [cons_append, isChain_cons] at rest
    refine ⟨_, rfl, ?_⟩
    rw [← cons_append, append_assoc]
    refine isChain_append.mpr ⟨placed.chain, rest.2, ?_⟩
    rw [List.getLast?_cons, ending]
    rintro _ ⟨⟩
    exact rest.1

omit positive in
theorem findSplitPoints_eq_panic (zero : config.maxSize = 0) {start stop : ℕ}
    (ordered : start < stop) : findSplitPoints hash data config start stop = .panic := by
  unfold findSplitPoints
  dsimp only
  rw [if_neg (by omega), Machine.divCeil, if_pos zero]
  rfl

variable (hash data config) in
def splitPoints (start stop : ℕ) : List ℕ :=
  if stop - start > config.maxSize then
    match findSplitPoints hash data config start stop with
    | .ok splits => splits
    | _ => []
  else []

theorem splitChunk_eq_ok {range : ℕ × ℕ} (ordered : range.1 < range.2) :
    splitChunk hash data config range =
        .ok (range.1 :: splitPoints hash data config range.1 range.2) ∧
      (range.1 :: splitPoints hash data config range.1 range.2 ++ [range.2]).IsChain
        (Within config.maxSize) := by
  unfold splitChunk splitPoints
  split
  · next large =>
    obtain ⟨splits, found, chain⟩ := findSplitPoints_eq_ok hash data positive large
    rw [found]
    exact ⟨rfl, chain⟩
  · next small => exact ⟨rfl, .cons_cons ⟨ordered, by omega⟩ (.singleton _)⟩

variable (hash data) in
theorem splitOversized_eq_ok (partitions : Partitions length boundaries) :
    splitOversized hash data config boundaries =
        .ok (subdivide (splitPoints hash data config) boundaries) ∧
      Partitions length (subdivide (splitPoints hash data config) boundaries) ∧
      (subdivide (splitPoints hash data config) boundaries).IsChain (Within config.maxSize) := by
  have ordered := isChain_iff_ranges.mp partitions.increasing
  have within : (subdivide (splitPoints hash data config) boundaries).IsChain
      (Within config.maxSize) :=
    isChain_subdivide fun range member => (splitChunk_eq_ok positive (ordered range member)).2
  have increasing := within.imp fun _ _ step => step.1
  have split : forEach (splitChunk hash data config) (ranges boundaries) =
      .ok ((ranges boundaries).map fun range =>
        range.1 :: splitPoints hash data config range.1 range.2) := by
    apply (forEach_eq_ok_iff ..).mpr
    rw [forall₂_map_right_iff, forall₂_same]
    intro range member
    exact (splitChunk_eq_ok positive (ordered range member)).1
  have sorted := increasing.pairwise.imp fun step => Nat.le_of_lt step
  refine ⟨?_, ⟨?_, ?_, increasing⟩, within⟩
  · rw [splitOversized, split, ok_bind]
    dsimp only
    rw [← flatMap_def, ← Boundaries.subdivide, sorted.insertionSort_eq,
      destutter_of_isChain _ _ (increasing.imp fun _ _ step => step.ne)]
  · rw [head?_subdivide]
    exact partitions.first
  · rw [getLast?_subdivide]
    exact partitions.last

end

theorem splitOversized_eq_panic (zero : config.maxSize = 0) (nonempty : 0 < length)
    (partitions : Partitions length boundaries) :
    splitOversized hash data config boundaries = .panic := by
  obtain ⟨next, rest, rfl⟩ := partitions.eq_cons_cons nonempty
  have ordered : 0 < next := (isChain_cons_cons.mp partitions.increasing).1
  have first : splitChunk hash data config (0, next) = .panic := by
    rw [splitChunk, if_pos (by dsimp only; omega), findSplitPoints_eq_panic zero ordered]
    rfl
  have rangesEq : ranges (0 :: next :: rest) = (0, next) :: ranges (next :: rest) := rfl
  rw [splitOversized, rangesEq, forEach, first]
  rfl

variable (hash data config) in
def merge (boundaries : List ℕ) : List ℕ :=
  if boundaries.length < 3 then boundaries
  else (loop config maxIterations ⟨boundaries, computePriorities hash data boundaries⟩).boundaries

theorem process_eq (some_ : 2 ≤ boundaries.length) :
    process hash data config boundaries =
      splitOversized hash data config (merge hash data config boundaries) := by
  unfold process merge
  rw [if_neg (by omega)]
  split
  · rfl
  · rfl

variable (hash data config) in
theorem coarsens_merge (boundaries : List ℕ) :
    Coarsens boundaries (merge hash data config boundaries) := by
  unfold merge
  split
  · exact .refl _
  · exact coarsens_loop config maxIterations ⟨boundaries, _⟩

variable (hash data) in
/-- **The phase with a positive maximum** returns a partition whose chunks are not
larger. -/
theorem process_eq_ok (positive : 0 < config.maxSize) (nonempty : 0 < length)
    (partitions : Partitions length boundaries) :
    ∃ result, process hash data config boundaries = .ok result ∧ Partitions length result ∧
      result.IsChain (Within config.maxSize) := by
  have merged := partitions.coarsen (coarsens_merge hash data config boundaries)
  obtain ⟨next, rest, rfl⟩ := partitions.eq_cons_cons nonempty
  rw [process_eq (Nat.le_add_left ..)]
  exact ⟨_, splitOversized_eq_ok hash data positive merged⟩

variable (hash data) in
theorem process_eq_panic (zero : config.maxSize = 0) (nonempty : 0 < length)
    (partitions : Partitions length boundaries) :
    process hash data config boundaries = .panic := by
  have merged := partitions.coarsen (coarsens_merge hash data config boundaries)
  obtain ⟨next, rest, rfl⟩ := partitions.eq_cons_cons nonempty
  rw [process_eq (Nat.le_add_left ..)]
  exact splitOversized_eq_panic zero nonempty merged

end Warp.Chonkers.Diffbit
