import Warp.Chonkers.Config
import Warp.Foundation.Boundaries

/-! # Balancing phase

Kittens are undersized chunks whose right boundary is lighter than the boundaries next
to it. They are merged with the neighbour on their lighter side, all kittens of a turn
from right to left, for at most a thousand turns. The phase only drops inner boundaries
(`Balancing.coarsens_process`).
-/

namespace Warp.Chonkers.Balancing

open Boundaries

structure State where
  boundaries : List ℕ
  weights : List ChunkWeight

def State.remove (state : State) (idx : ℕ) : State :=
  ⟨state.boundaries.eraseIdx idx, state.weights.eraseIdx idx⟩

variable (hash : Bytes → ChunkId) (data : Bytes) (config : LayerConfig)

def computeWeights (boundaries : List ℕ) : List ChunkWeight :=
  boundaries.map fun offset =>
    if offset = 0 ∨ offset ≥ data.length then ChunkWeight.max
    else ChunkWeight.ofBoundary hash offset data

/-- Chunk `i` is undersized and lighter than both neighbours. Its weight is the one of its
right boundary. -/
def isKitten (state : State) (i : ℕ) : Bool :=
  let chunkSize := state.boundaries.getD (i + 1) 0 - state.boundaries.getD i 0
  let chunkWeight := state.weights.getD (i + 1) 0
  let leftWeight := if i > 0 then state.weights.getD i 0 else ChunkWeight.max
  let rightWeight :=
    if i + 2 < state.weights.length then state.weights.getD (i + 2) 0 else ChunkWeight.max
  chunkSize < config.minSize ∧ chunkWeight < leftWeight ∧ chunkWeight < rightWeight

def findKittens (state : State) : List ℕ :=
  if state.boundaries.length < 3 then []
  else (List.range (state.boundaries.length - 2)).filter (isKitten config state)

def mergeKitten (state : State) (chunkIdx : ℕ) : State :=
  if chunkIdx ≥ state.boundaries.length - 1 then state
  else
    let leftWeight := state.weights.getD chunkIdx 0
    let rightWeight := state.weights.getD (chunkIdx + 2) ChunkWeight.max
    if leftWeight < rightWeight ∧ chunkIdx > 0 then state.remove chunkIdx
    else if chunkIdx + 1 < state.boundaries.length - 1 then state.remove (chunkIdx + 1)
    else state

/-- One kitten of a turn. The flag tells whether a kitten was merged, even where merging
left the boundaries as they were. -/
def visitKitten (progress : State × Bool) (kittenIdx : ℕ) : State × Bool :=
  if kittenIdx > 0 ∧ kittenIdx < progress.1.boundaries.length - 1 then
    (mergeKitten progress.1 kittenIdx, true)
  else progress

def loop : ℕ → State → State
  | 0, state => state
  | turns + 1, state =>
    let kittens := findKittens config state
    if kittens.isEmpty then state
    else
      let (merged, changed) := kittens.reverse.foldl visitKitten (state, false)
      if changed then loop turns merged else merged

def maxIterations : ℕ := 1000

def process (boundaries : List ℕ) : List ℕ :=
  if boundaries.length < 3 then boundaries
  else (loop config maxIterations ⟨boundaries, computeWeights hash data boundaries⟩).boundaries

variable {hash data config}

theorem coarsens_mergeKitten (state : State) {chunkIdx : ℕ} (inner : 0 < chunkIdx) :
    Coarsens state.boundaries (mergeKitten state chunkIdx).boundaries := by
  unfold mergeKitten
  split
  · exact .refl _
  · next inside =>
    dsimp only
    split
    · exact coarsens_eraseIdx _ inner (by omega)
    · split
      · exact coarsens_eraseIdx _ (Nat.succ_pos _) (by omega)
      · exact .refl _

theorem coarsens_visitKitten (progress : State × Bool) (kittenIdx : ℕ) :
    Coarsens progress.1.boundaries (visitKitten progress kittenIdx).1.boundaries := by
  unfold visitKitten
  split
  · next inside => exact coarsens_mergeKitten _ inside.1
  · exact .refl _

theorem coarsens_foldl_visitKitten (kittens : List ℕ) (progress : State × Bool) :
    Coarsens progress.1.boundaries (kittens.foldl visitKitten progress).1.boundaries := by
  induction kittens generalizing progress with
  | nil => exact .refl _
  | cons kitten rest ih => exact (coarsens_visitKitten progress kitten).trans (ih _)

theorem coarsens_loop (turns : ℕ) (state : State) :
    Coarsens state.boundaries (loop config turns state).boundaries := by
  induction turns generalizing state with
  | zero => exact .refl _
  | succ turns ih =>
    unfold loop
    dsimp only
    split
    · exact .refl _
    · have merged := coarsens_foldl_visitKitten (findKittens config state).reverse (state, false)
      split
      · exact merged.trans (ih _)
      · exact merged

variable (hash data config) in
theorem coarsens_process (boundaries : List ℕ) :
    Coarsens boundaries (process hash data config boundaries) := by
  unfold process
  split
  · exact .refl _
  · exact coarsens_loop maxIterations ⟨boundaries, _⟩

end Warp.Chonkers.Balancing
