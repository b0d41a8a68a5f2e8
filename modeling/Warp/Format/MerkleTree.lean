import Warp.Foundation.PairFold

/-! # The Merkle tree that stores every node

The digest type and the pair hash are parameters. The array of nodes is the stack of levels of the
pairwise fold (`MerkleTree.nodes_fromLeaves`), the root is the top (`MerkleTree.root_fromLeaves`), a
proof lists the partners of its leaf (`MerkleTree.proof_fromLeaves`), and the verifier climbs along
the binary digits of the claimed index (`MerkleTree.verifyProof_iff`).
-/

namespace Warp.Format

open PairFold List Option

/-- Merkle tree for content verification: the leaves, and all levels from the
leaves up in one array. -/
structure MerkleTree (Digest : Type*) where
  leaves : List Digest
  nodes : List Digest

namespace MerkleTree

variable {Digest : Type*} (hashPair : Digest → Digest → Digest) (zero : Digest)
  {leaves : List Digest} (count : ℕ) (before level : List Digest)

/-- One turn of the inner loop of `build_tree`: push the parent of the pair at
`index`. The last node is duplicated when it has no right neighbour. -/
def pushParent (levelStart levelSize : ℕ) (nodes : List Digest) (index : ℕ) : List Digest :=
  let leftIdx := levelStart + index * 2
  let rightIdx := leftIdx + 1
  let left := nodes.getD leftIdx zero
  let right := if rightIdx < levelStart + levelSize then nodes.getD rightIdx zero else left
  nodes ++ [hashPair left right]

/-- The outer loop of `build_tree`, from the level at `levelStart`. -/
def buildLevels (nodes : List Digest) (levelStart levelSize : ℕ) : List Digest :=
  if 1 < levelSize then
    let nextLevelSize := (levelSize + 1) / 2
    buildLevels ((List.range nextLevelSize).foldl (pushParent hashPair zero levelStart levelSize)
      nodes) (levelStart + levelSize) nextLevelSize
  else nodes
termination_by levelSize

def buildTree (leaves : List Digest) : List Digest :=
  if leaves.isEmpty then [zero] else buildLevels hashPair zero leaves 0 leaves.length

def fromLeaves (leaves : List Digest) : MerkleTree Digest where
  leaves := leaves
  nodes := buildTree hashPair zero leaves

def root (tree : MerkleTree Digest) : Digest :=
  tree.nodes.getLastD zero

/-- The loop of `proof`: the siblings from one level up. -/
def proofLevels (nodes : List Digest) (index levelStart levelSize : ℕ) : List Digest :=
  if 1 < levelSize then
    let siblingIndex := if index % 2 = 0 then index + 1 else index - 1
    let sibling :=
      if siblingIndex < levelSize then nodes.getD (levelStart + siblingIndex) zero
      -- odd number of nodes: the last one is its own sibling
      else nodes.getD (levelStart + index) zero
    sibling :: proofLevels nodes (index / 2) (levelStart + levelSize) ((levelSize + 1) / 2)
  else []
termination_by levelSize

def proof (tree : MerkleTree Digest) (leafIndex : ℕ) : List Digest :=
  if tree.leaves.length ≤ leafIndex then []
  else proofLevels zero tree.nodes leafIndex 0 tree.leaves.length

/-- The loop of `verify_proof`: combine upward with the siblings. -/
def verifyLevels (currentHash : Digest) (currentIndex : ℕ) : List Digest → Digest
  | [] => currentHash
  | sibling :: rest =>
    verifyLevels
      (if currentIndex % 2 = 0 then hashPair currentHash sibling
        else hashPair sibling currentHash) (currentIndex / 2) rest

/-- Check a leaf hash, its sibling path and its index against an expected root. -/
def verifyProof [DecidableEq Digest] (leaf : Digest) (proof : List Digest) (root : Digest)
    (leafIndex : ℕ) : Bool :=
  verifyLevels hashPair leaf leafIndex proof = root

theorem foldl_pushParent :
    (List.range ((level.length + 1) / 2)).foldl
        (pushParent hashPair zero before.length level.length) (before ++ level) =
      before ++ level ++ pairUp hashPair level := by
  -- after `count` turns the first `count` parents have been pushed
  suffices partialPass : ∀ count ≤ (level.length + 1) / 2,
      (List.range count).foldl (pushParent hashPair zero before.length level.length)
        (before ++ level) = before ++ level ++ (pairUp hashPair level).take count by
    rw [partialPass _ le_rfl, take_of_length_le (by simp)]
  intro count
  induction count with
  | zero => intro _; simp
  | succ count ih =>
    intro bound
    have inside : count * 2 < level.length := by omega
    have parent : count < (pairUp hashPair level).length := by simp; omega
    have read (offset : ℕ) (within : offset < level.length) :
        (before ++ level ++ (pairUp hashPair level).take count).getD
          (before.length + offset) zero = level[offset] := by
      rw [append_assoc, getD_append_right _ _ _ _ (by omega),
        getD_append _ _ _ _ (by omega), Nat.add_sub_cancel_left,
        getD_eq_getElem _ _ within]
    rw [range_succ, foldl_append, ih (by omega),
      take_succ_eq_append_getElem parent,
      ← append_assoc]
    have value : (pairUp hashPair level)[count]? = _ := getElem?_pairUp hashPair level count
    rw [getElem?_eq_getElem parent,
      getElem?_eq_getElem (show 2 * count < level.length by omega), map_some,
      some.injEq] at value
    simp only [foldl_cons, foldl_nil, pushParent, read _ inside, value]
    congr 4
    · simp only [Nat.mul_comm]
    · by_cases paired : count * 2 + 1 < level.length
      · rw [if_pos (by omega), Nat.add_assoc, read _ paired, getElem?_eq_getElem (by omega)]
        simp only [getD_some, Nat.mul_comm]
      · rw [if_neg (by omega), getElem?_eq_none (by omega)]
        simp only [getD_none, Nat.mul_comm]

/-- From a level at the end of the array the loop appends all levels above it. -/
theorem buildLevels_eq (nonempty : level ≠ []) (tall : Nat.clog 2 level.length = count) :
    buildLevels hashPair zero (before ++ level) before.length level.length =
      before ++ stacked hashPair count level := by
  induction count generalizing before level with
  | zero =>
    obtain ⟨value, rfl⟩ := eq_singleton_of_clog_zero nonempty tall
    rw [buildLevels]
    simp [stacked]
  | succ count ih =>
    have several := two_le_of_clog_succ tall
    rw [buildLevels, if_pos (by omega)]
    dsimp only
    rw [foldl_pushParent hashPair zero]
    have next := ih (before ++ level) (pairUp hashPair level) (pairUp_ne_nil hashPair nonempty)
      (by rw [length_pairUp]; exact clog_half tall)
    rw [length_append, length_pairUp] at next
    rw [next, stacked, append_assoc]

theorem nodes_fromLeaves (nonempty : leaves ≠ []) :
    (fromLeaves hashPair zero leaves).nodes =
      stacked hashPair (Nat.clog 2 leaves.length) leaves := by
  have filled : leaves.isEmpty = false := by simpa using nonempty
  have levels := buildLevels_eq hashPair zero _ [] leaves nonempty rfl
  simpa [fromLeaves, buildTree, filled] using levels

theorem root_fromLeaves (leaves : List Digest) :
    (fromLeaves hashPair zero leaves).root zero = top hashPair zero leaves := by
  by_cases empty : leaves = []
  · subst empty
    rfl
  · rw [root, nodes_fromLeaves hashPair zero empty, getLastD_eq_getLast?,
      getLast?_stacked hashPair zero empty rfl, getD_some]

/-- From a level of the array the loop lists the partners of an index. -/
theorem proofLevels_eq (index : ℕ) (inside : index < level.length)
    (tall : Nat.clog 2 level.length = count) :
    proofLevels zero (before ++ stacked hashPair count level) index before.length level.length =
      partners hashPair zero (lowBits count index) level := by
  induction count generalizing before level index with
  | zero =>
    have nonempty : level ≠ [] := length_pos_iff.mp (by omega)
    obtain ⟨value, rfl⟩ := eq_singleton_of_clog_zero nonempty tall
    rw [proofLevels]
    simp [lowBits, partners]
  | succ count ih =>
    have several := two_le_of_clog_succ tall
    have half := clog_half tall
    have next := ih (before ++ level) (pairUp hashPair level) (index / 2)
      (by rw [length_pairUp]; omega) (by rw [length_pairUp]; exact half)
    rw [length_append, length_pairUp, append_assoc] at next
    rw [proofLevels, if_pos (by omega), stacked, lowBits_succ, partners, next]
    have shifted (offset : ℕ) :
        (before ++ (level ++ stacked hashPair count (pairUp hashPair level))).getD
            (before.length + offset) zero =
          (level ++ stacked hashPair count (pairUp hashPair level)).getD offset zero := by
      rw [getD_append_right _ _ _ _ (by omega), Nat.add_sub_cancel_left]
    simp only [shifted]
    rw [← apply_ite (fun place =>
      (level ++ stacked hashPair count (pairUp hashPair level)).getD place zero),
      partner_index inside, position_lowBits count _ _ (by omega) half,
      getD_append _ _ _ _ (by omega)]

theorem proof_fromLeaves {leafIndex : ℕ} (inside : leafIndex < leaves.length) :
    (fromLeaves hashPair zero leaves).proof zero leafIndex =
      partners hashPair zero (lowBits (Nat.clog 2 leaves.length) leafIndex) leaves := by
  have nonempty : leaves ≠ [] := length_pos_iff.mp (by omega)
  have levels := proofLevels_eq hashPair zero _ [] leaves leafIndex inside rfl
  rw [proof, nodes_fromLeaves hashPair zero nonempty]
  change (if leaves.length ≤ leafIndex then [] else proofLevels zero _ leafIndex 0 _) = _
  rw [if_neg (by omega)]
  exact levels

theorem verifyLevels_eq_climb (start : Digest) (index : ℕ) (proof : List Digest) :
    verifyLevels hashPair start index proof =
      climb hashPair start (proof.zip (lowBits proof.length index)) := by
  induction proof generalizing start index with
  | nil => rfl
  | cons sibling rest ih =>
    rw [verifyLevels, ih, length_cons, lowBits_succ, zip_cons_cons, climb_cons]
    by_cases odd : index % 2 = 1
    · simp [odd]
    · simp [show index % 2 = 0 by omega]

theorem verifyProof_iff [DecidableEq Digest] (leaf : Digest) (proof : List Digest)
    (root : Digest) (leafIndex : ℕ) :
    verifyProof hashPair leaf proof root leafIndex = true ↔
      climb hashPair leaf (proof.zip (lowBits proof.length leafIndex)) = root := by
  rw [verifyProof, decide_eq_true_eq, verifyLevels_eq_climb]

end MerkleTree

end Warp.Format
