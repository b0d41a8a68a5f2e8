import Warp.Foundation.Machine
import Warp.Io.SeqCdc

/-! # Vectorised boundary detection

Three loops cut a buffer into ranges of a start and a length: one compares byte by byte, one skips
16 bytes at a time before the minimum size (NEON), and one skips 32 bytes at a time and searches 32
pairs at once, comparing bytes as signed numbers (AVX2). The processor decides.
-/

namespace Warp.Io.Simd

abbrev Panicking := Outcome Empty

def isMonotonic (mode : SeqMode) (prev curr : UInt8) : Bool :=
  match mode with
  | .increasing => prev < curr
  | .decreasing => prev > curr

variable (config : SeqCdcConfig) (data : Bytes)

def finalChunk (chunks : List (ℕ × ℕ)) (chunkStart : ℕ) : List (ℕ × ℕ) :=
  if chunkStart < data.length then chunks ++ [(chunkStart, data.length - chunkStart)] else chunks

structure Scan where
  chunks : List (ℕ × ℕ)
  chunkStart : ℕ
  consecutive : ℕ

def countPair (consecutive i : ℕ) : ℕ :=
  if isMonotonic config.mode (data.getD (i - 1) 0) (data.getD i 0) then consecutive + 1 else 0

/-- One position: the chunk ends after a long enough run, or before the position when
it has its maximum size. -/
def scanAt (i : ℕ) (scan : Scan) : Scan :=
  let chunkLen := i - scan.chunkStart
  let consecutive := countPair config data scan.consecutive i
  if chunkLen ≥ config.minSize ∧ consecutive ≥ config.seqLength - 1 then
    ⟨scan.chunks ++ [(scan.chunkStart, chunkLen + 1)], i + 1, 0⟩
  else if chunkLen ≥ config.maxSize then ⟨scan.chunks ++ [(scan.chunkStart, chunkLen)], i, 0⟩
  else { scan with consecutive }

def chunkBufferScalar : List (ℕ × ℕ) :=
  let scan := (List.range' 1 (data.length - 1)).foldl (fun scan i => scanAt config data i scan)
    ⟨[], 0, 0⟩
  finalChunk data scan.chunks scan.chunkStart

namespace Neon

/-- The loop over positions. Before the minimum size it advances 16 positions without
counting, whether or not most of the pairs are opposing. -/
def loop : ℕ → ℕ → Scan → Scan
  | 0, _, scan => scan
  | fuel + 1, i, scan =>
    if i < data.length then
      if i - scan.chunkStart + 16 < config.minSize ∧ data.length - i ≥ 17 then
        loop fuel (i + 16) { scan with consecutive := 0 }
      else loop fuel (i + 1) (scanAt config data i scan)
    else scan

def chunkBufferNeon : List (ℕ × ℕ) :=
  let scan := loop config data data.length 1 ⟨[], 0, 0⟩
  finalChunk data scan.chunks scan.chunkStart

end Neon

namespace Avx2

variable (overflowChecks : Bool)

/-- Vector comparison of bytes, which takes them as signed numbers. -/
def cmpgtEpi8 (left right : UInt8) : Bool := right.toInt8 < left.toInt8

/-- Compare adjacent bytes. -/
def compareAdjacent (mode : SeqMode) (prev curr : UInt8) : Bool :=
  match mode with
  | .increasing => cmpgtEpi8 curr prev
  | .decreasing => cmpgtEpi8 prev curr

def pairMask (mode : SeqMode) (window : Bytes) : BitVec 32 :=
  (BitVec.ofBoolListLE ((List.range 32).map fun lane =>
    compareAdjacent mode (window.getD lane 0) (window.getD (lane + 1) 0))).setWidth 32

/-- Find position of first consecutive run of `n` ones in a 32-bit mask. -/
def findConsecutiveOnes (mask : BitVec 32) (n : ℕ) : Panicking (Option ℕ) :=
  if n = 0 then .ok (some 0)
  else if n > 32 then .ok none
  else do
    let shifted ← Machine.shiftLeft overflowChecks (1 : BitVec 32) n
    let pattern := shifted - 1
    let found := (List.range (32 - n + 1)).find? fun pos => mask >>> pos &&& pattern = pattern
    .ok (found.map fun pos => pos + n - 1)

def findBoundaryInWindow (seqLength : ℕ) (mode : SeqMode) (window : Bytes) : Panicking (Option ℕ) :=
  if window.length < 33 then .ok none
  else findConsecutiveOnes overflowChecks (pairMask mode window) (seqLength - 1)

structure State where
  chunks : List (ℕ × ℕ)
  chunkStart : ℕ
  i : ℕ

/-- The next `seqLength` bytes form a run. -/
def isBoundary (i : ℕ) : Bool :=
  let windowEnd := min (i + config.seqLength) data.length
  if windowEnd - i ≥ config.seqLength then
    let window := Bytes.slice data i windowEnd
    (window.zip window.tail).all fun (prev, curr) => isMonotonic config.mode prev curr
  else false

def scalarFallback (state : State) : Option State :=
  if isBoundary config data state.i then
    some ⟨state.chunks ++
      [(state.chunkStart, state.i + config.seqLength - 1 - state.chunkStart)],
      state.i + config.seqLength, state.i + config.seqLength⟩
  else none

def searchWindow (i : ℕ) : Panicking (Option ℕ) :=
  if data.length - i ≥ 33 then
    findBoundaryInWindow overflowChecks config.seqLength config.mode (data.drop i)
  else .ok none

/-- Boundary detection phase: near the minimum size, check carefully. -/
def detectBoundary (state : State) : Panicking (Option State) :=
  let remaining := data.length - state.i
  if state.i - state.chunkStart ≥ config.minSize ∧ remaining ≥ config.seqLength then do
    match ← searchWindow config data overflowChecks state.i with
    | some offset =>
      let boundaryPos := state.i + offset
      if boundaryPos - state.chunkStart ≥ config.minSize then
        .ok (some ⟨state.chunks ++ [(state.chunkStart, boundaryPos - state.chunkStart + 1)],
          boundaryPos + 1, boundaryPos + 1⟩)
      else .ok (scalarFallback config data state)
    | none => .ok (scalarFallback config data state)
  else .ok none

def enforceMaximum (state : State) : State :=
  let chunkLen := state.i - state.chunkStart
  if chunkLen ≥ config.maxSize then
    ⟨state.chunks ++ [(state.chunkStart, chunkLen)], state.i, state.i + 1⟩
  else { state with i := state.i + 1 }

/-- One turn of the loop. Before the minimum size it advances 32 positions, whether or
not most of the pairs are opposing. -/
def turn (state : State) : Panicking State :=
  if state.i - state.chunkStart + 32 < config.minSize ∧ data.length - state.i ≥ 33 then
    .ok { state with i := state.i + 32 }
  else do
    match ← detectBoundary config data overflowChecks state with
    | some cut => .ok cut
    | none => .ok (enforceMaximum config state)

def loop : ℕ → State → Panicking State
  | 0, state => .ok state
  | fuel + 1, state =>
    if state.i < data.length then
      (turn config data overflowChecks state).bind (loop fuel)
    else .ok state

def chunkBufferAvx2 : Panicking (List (ℕ × ℕ)) := do
  let state ← loop config data overflowChecks data.length ⟨[], 0, 0⟩
  .ok (finalChunk data state.chunks state.chunkStart)

end Avx2

inductive Processor where
  | x86 (avx2 : Bool)
  | aarch64
  | other

variable (overflowChecks : Bool) (processor : Processor)

def chunkBufferAuto : Panicking (List (ℕ × ℕ)) :=
  match processor with
  | .x86 true => Avx2.chunkBufferAvx2 config data overflowChecks
  | .aarch64 => .ok (Neon.chunkBufferNeon config data)
  | .x86 false | .other => .ok (chunkBufferScalar config data)

def sliceRange (range : ℕ × ℕ) : Panicking Bytes :=
  if range.1 + range.2 ≤ data.length then .ok (Bytes.slice data range.1 (range.1 + range.2))
  else .panic

/-- The chunks of a buffer; `chunk_simd` reads its input into such a buffer first. -/
def chunkBuffer : Panicking (List Bytes) :=
  if data.isEmpty then .ok []
  else do
    let ranges ← chunkBufferAuto config data overflowChecks processor
    Outcome.forEach (sliceRange data) ranges

end Warp.Io.Simd
