import Warp.Foundation.Bytes

/-! # Content-defined chunking by monotonic sequences

While scanning, the chunker cuts after a strictly monotonic run of bytes, once the chunk has its
minimum size, or at the maximum size; after too many opposing byte pairs it skips ahead. No byte is
lost, added or moved (`SeqCdcChunker.flatten_chunk`), and no chunk is empty
(`SeqCdcChunker.ne_nil_of_mem_chunk`). How the input is split into reads has no influence, and the
asynchronous readers find the same chunks (`SeqCdcChunker.chunkings_agree`).
-/

namespace Warp.Io

open List

/-- Detection mode for SeqCDC: ascending or descending byte sequences. -/
inductive SeqMode where
  | increasing
  | decreasing
  deriving DecidableEq

structure SeqCdcConfig where
  minSize : ℕ
  targetSize : ℕ
  maxSize : ℕ
  seqLength : ℕ
  skipTrigger : ℕ
  skipSize : ℕ
  mode : SeqMode

structure ChunkerConfig where
  minSize : ℕ
  targetSize : ℕ
  maxSize : ℕ
  windowSize : ℕ

def SeqCdcConfig.ofChunkerConfig (config : ChunkerConfig) : SeqCdcConfig where
  minSize := config.minSize
  targetSize := config.targetSize
  maxSize := config.maxSize
  seqLength := 5
  skipTrigger := 50
  skipSize := config.targetSize / 16
  mode := .increasing

/-- The variables of the chunking loop: finished chunks, the current chunk, the
recent bytes, the opposing pairs counted and the bytes still to skip. -/
structure SeqCdcState where
  chunks : List Bytes
  currentChunk : Bytes
  window : Bytes
  opposingCount : ℕ
  skipRemaining : ℕ

namespace SeqCdcChunker

variable (config : SeqCdcConfig) (data : Bytes) (state : SeqCdcState)

/-- Check if the last `seqLength` bytes form a monotonic sequence. -/
def isBoundary (window : Bytes) : Bool :=
  if window.length < config.seqLength then false
  else
    let seq := window.drop (window.length - config.seqLength)
    (seq.zip seq.tail).all fun (first, second) =>
      match config.mode with
      | .increasing => first < second
      | .decreasing => first > second

def isOpposingPair (prev curr : UInt8) : Bool :=
  match config.mode with
  | .increasing => prev ≥ curr
  | .decreasing => prev ≤ curr

def skip (state : SeqCdcState) (byte : UInt8) : SeqCdcState :=
  let skipRemaining := state.skipRemaining - 1
  if skipRemaining = 0 then
    { state with
      currentChunk := state.currentChunk ++ [byte]
      skipRemaining, window := [], opposingCount := 0 }
  else { state with currentChunk := state.currentChunk ++ [byte], skipRemaining }

def countOpposing (state : SeqCdcState) (byte : UInt8) : ℕ :=
  match state.window.getLast? with
  | some prev => if isOpposingPair config prev byte then state.opposingCount + 1 else 0
  | none => state.opposingCount

def slide (window : Bytes) (byte : UInt8) : Bytes :=
  let window := window ++ [byte]
  if window.length > config.seqLength then window.tail else window

/-- One byte while scanning for a boundary: the chunk is finished at a boundary. -/
def scan (state : SeqCdcState) (byte : UInt8) : SeqCdcState :=
  let window := slide config state.window byte
  let currentChunk := state.currentChunk ++ [byte]
  let size := currentChunk.length
  if size ≥ config.minSize ∧ (isBoundary config window ∨ size ≥ config.maxSize) then
    { state with
      chunks := state.chunks ++ [currentChunk]
      currentChunk := [], window := [], opposingCount := 0 }
  else { state with currentChunk, window, opposingCount := countOpposing config state byte }

/-- Trigger a skip in an unfavorable region, given the size scanned. -/
def triggerSkip (size : ℕ) (state : SeqCdcState) : SeqCdcState :=
  if state.opposingCount ≥ config.skipTrigger ∧ size < config.minSize then
    { state with
      skipRemaining := min config.skipSize (config.minSize - size)
      opposingCount := 0 }
  else state

def step (state : SeqCdcState) (byte : UInt8) : SeqCdcState :=
  if state.skipRemaining > 0 then skip state byte
  else triggerSkip config (state.currentChunk.length + 1) (scan config state byte)

def chunk (data : Bytes) : List Bytes :=
  let final := data.foldl (step config) ⟨[], [], [], 0, 0⟩
  if final.currentChunk.isEmpty then final.chunks else final.chunks ++ [final.currentChunk]

theorem triggerSkip_chunks (size : ℕ) (state : SeqCdcState) :
    (triggerSkip config size state).chunks = state.chunks ∧
      (triggerSkip config size state).currentChunk = state.currentChunk := by
  unfold triggerSkip
  split <;> exact ⟨rfl, rfl⟩

/-- What one byte does to the chunks: it is appended to the current chunk, which may
then be finished. -/
theorem step_chunks (byte : UInt8) :
    ((step config state byte).chunks = state.chunks ∧
        (step config state byte).currentChunk = state.currentChunk ++ [byte]) ∨
      (step config state byte).chunks = state.chunks ++ [state.currentChunk ++ [byte]] ∧
        (step config state byte).currentChunk = [] := by
  unfold step
  by_cases skipping : state.skipRemaining > 0
  · rw [if_pos skipping]
    unfold skip
    dsimp only
    split <;> exact Or.inl ⟨rfl, rfl⟩
  · rw [if_neg skipping, (triggerSkip_chunks ..).1, (triggerSkip_chunks ..).2]
    unfold scan
    dsimp only
    split
    · exact Or.inr ⟨rfl, rfl⟩
    · exact Or.inl ⟨rfl, rfl⟩

/-- The chunks so far and the current chunk are the input consumed, and no finished
chunk is empty. -/
theorem foldl_step (nonempty : ∀ chunk ∈ state.chunks, chunk ≠ []) :
    (data.foldl (step config) state).chunks.flatten ++
        (data.foldl (step config) state).currentChunk =
      state.chunks.flatten ++ state.currentChunk ++ data ∧
    ∀ chunk ∈ (data.foldl (step config) state).chunks, chunk ≠ [] := by
  induction data generalizing state with
  | nil => exact ⟨(append_nil _).symm, nonempty⟩
  | cons byte rest ih =>
    rw [foldl_cons]
    rcases step_chunks config state byte with ⟨chunks, current⟩ | ⟨chunks, current⟩
    · have later := ih (step config state byte) (by rwa [chunks])
      rw [chunks, current] at later
      simpa using later
    · have later := ih (step config state byte) (by
        rw [chunks]
        refine forall_mem_append.mpr ⟨nonempty, forall_mem_singleton.mpr ?_⟩
        exact append_ne_nil_of_right_ne_nil _ (cons_ne_nil _ _))
      rw [chunks, current] at later
      simpa using later

theorem flatten_chunk : (chunk config data).flatten = data := by
  have consumed := (foldl_step config data ⟨[], [], [], 0, 0⟩ (by simp)).1
  unfold chunk
  dsimp only
  split
  · next empty =>
    rw [List.isEmpty_iff.mp empty] at consumed
    simpa using consumed
  · simpa using consumed

theorem ne_nil_of_mem_chunk {data part : Bytes} (member : part ∈ chunk config data) :
    part ≠ [] := by
  have finished := (foldl_step config data ⟨[], [], [], 0, 0⟩ (by simp)).2
  unfold chunk at member
  dsimp only at member
  split at member
  · exact finished part member
  · next current =>
    rcases mem_append.mp member with old | new
    · exact finished part old
    · rw [mem_singleton.mp new]
      exact fun empty => current (List.isEmpty_iff.mpr empty)

section Readers

/-- `isMonotonicBoundary` from a byte on. -/
def isMonotonicFrom (prev : UInt8) : Bytes → Bool
  | [] => true
  | curr :: rest => !isOpposingPair config prev curr && isMonotonicFrom curr rest

/-- Check if a window ends with a monotonic sequence, as the asynchronous readers do. -/
def isMonotonicBoundary (window : Bytes) : Bool :=
  if window.length < config.seqLength then false
  else
    match window.drop (window.length - config.seqLength) with
    | prev :: rest => isMonotonicFrom config prev rest
    -- only for sequences of no bytes, where the index panics
    | [] => false

/-- One byte while an asynchronous reader scans for a boundary. -/
def scanAsync (state : SeqCdcState) (byte : UInt8) : SeqCdcState :=
  let window := slide config state.window byte
  let currentChunk := state.currentChunk ++ [byte]
  let size := currentChunk.length
  if size ≥ config.minSize ∧ (isMonotonicBoundary config window ∨ size ≥ config.maxSize) then
    { state with
      chunks := state.chunks ++ [currentChunk]
      currentChunk := [], window := [], opposingCount := 0 }
  else { state with currentChunk, window, opposingCount := countOpposing config state byte }

def stepAsync (state : SeqCdcState) (byte : UInt8) : SeqCdcState :=
  if state.skipRemaining > 0 then skip state byte
  else triggerSkip config (state.currentChunk.length + 1) (scanAsync config state byte)

/-- A loop over reads, which ends with a read of no bytes. -/
def readAll (step : SeqCdcState → UInt8 → SeqCdcState) : SeqCdcState → List Bytes → SeqCdcState
  | state, read :: reads =>
    if read.isEmpty then state else readAll step (read.foldl step state) reads
  | state, [] => state

def readChunks (step : SeqCdcState → UInt8 → SeqCdcState) (reads : List Bytes) : List Bytes :=
  let final := readAll step ⟨[], [], [], 0, 0⟩ reads
  if final.currentChunk.isEmpty then final.chunks else final.chunks ++ [final.currentChunk]

def chunkReader : List Bytes → List Bytes := readChunks (step config)

def chunkAsyncReader : List Bytes → List Bytes := readChunks (stepAsync config)

/-- The chunks sent to a receiver that is not dropped. -/
def streamChunksToChannel : List Bytes → List Bytes := readChunks (stepAsync config)

variable {config}

theorem isMonotonicFrom_eq (prev : UInt8) (rest : Bytes) :
    isMonotonicFrom config prev rest = ((prev :: rest).zip rest).all fun (first, second) =>
      match config.mode with
      | .increasing => first < second
      | .decreasing => first > second := by
  induction rest generalizing prev with
  | nil => rfl
  | cons curr rest ih =>
    rw [isMonotonicFrom, ih, zip_cons_cons, all_cons]
    congr 1
    unfold isOpposingPair
    cases config.mode <;> simp [← decide_not]

theorem stepAsync_eq (seq : 1 ≤ config.seqLength) : stepAsync config = step config := by
  have same : isMonotonicBoundary config = isBoundary config := by
    funext window
    unfold isMonotonicBoundary isBoundary
    split
    · rfl
    · next long =>
      cases last : window.drop (window.length - config.seqLength) with
      | nil =>
        have short := drop_eq_nil_iff.mp last
        omega
      | cons prev rest => exact isMonotonicFrom_eq prev rest
  funext state byte
  simp only [stepAsync, step, scanAsync, scan, same]

theorem readAll_eq (step : SeqCdcState → UInt8 → SeqCdcState) (state : SeqCdcState)
    {reads : List Bytes} (some_ : [] ∉ reads) :
    readAll step state reads = reads.flatten.foldl step state := by
  induction reads generalizing state with
  | nil => rfl
  | cons read reads ih =>
    obtain ⟨here, later⟩ := ne_and_not_mem_of_not_mem_cons some_
    rw [readAll, if_neg fun empty => here (List.isEmpty_iff.mp empty).symm, ih _ later,
      flatten_cons, foldl_append]

end Readers

/-- **Readers agree.** However the bytes are split into reads, the three loops find the chunks of
the bytes. -/
theorem chunkings_agree (seq : 1 ≤ config.seqLength) {reads asyncReads streamedReads : List Bytes}
    (some_ : [] ∉ reads ++ asyncReads ++ streamedReads) (async : asyncReads.flatten = reads.flatten)
    (streamed : streamedReads.flatten = reads.flatten) :
    chunkReader config reads = chunk config reads.flatten ∧
      chunkAsyncReader config asyncReads = chunkReader config reads ∧
      streamChunksToChannel config streamedReads = chunkReader config reads := by
  simp only [mem_append, not_or] at some_
  unfold chunkReader chunkAsyncReader streamChunksToChannel readChunks
  rw [stepAsync_eq seq, readAll_eq _ _ some_.1.1, readAll_eq _ _ some_.1.2,
    readAll_eq _ _ some_.2, async, streamed]
  exact ⟨rfl, rfl, rfl⟩

/-- Six bytes in three different reads. -/
theorem chunkings_agree_sample :
    let config : SeqCdcConfig := ⟨2, 3, 4, 2, 5, 1, .increasing⟩
    let reads : List Bytes := [[5, 5, 5], [6, 7, 1]]
    chunkAsyncReader config [[5], [5, 5, 6], [7, 1]] = chunkReader config reads ∧
      streamChunksToChannel config [reads.flatten] = chunkReader config reads := by
  intro config reads
  have some_ : [] ∉ reads ++ [[5], [5, 5, 6], [7, 1]] ++ [reads.flatten] := by decide
  exact (chunkings_agree config (by decide) some_ rfl rfl).2

end SeqCdcChunker

end Warp.Io
