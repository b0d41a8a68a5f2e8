import Warp.Foundation.Table
import Warp.Format.MerkleTree

/-! # The Merkle tree that recomputes its nodes through a cache

Inner nodes are recomputed on demand through a least-recently-used cache. Every operation keeps the
cache coherent with the pairwise fold (`SparseMerkleTree.getNodeAtLevel_spec`), so that every query
answers as if nothing were cached (`SparseMerkleTree.generateProof_spec`).
-/

namespace Warp.Format

open PairFold List Option Nat

/-- The place of a node: its level above the leaves and its index there. -/
abbrev NodeKey := ℕ × ℕ

/-- LRU cache for intermediate nodes; the access order has the least recently
used key in front. -/
structure NodeCache (Digest : Type*) where
  nodes : Table NodeKey Digest
  maxSize : ℕ
  accessOrder : List NodeKey

namespace NodeCache

variable {Digest : Type*}

def new (maxSize : ℕ) : NodeCache Digest where
  nodes := ∅
  maxSize := maxSize
  accessOrder := []

def get (cache : NodeCache Digest) (key : NodeKey) : Option Digest × NodeCache Digest :=
  match cache.nodes.lookup key with
  | some hash =>
    if key ∈ cache.accessOrder then
      (some hash, { cache with accessOrder := cache.accessOrder.erase key ++ [key] })
    else (some hash, cache)
  | none => (none, cache)

/-- The eviction loop of `insert`: drop keys from the front while the cache is
full. -/
def evict (maxSize : ℕ) (nodes : Table NodeKey Digest) :
    List NodeKey → Table NodeKey Digest × List NodeKey
  | [] => (nodes, [])
  | lruKey :: rest =>
    if maxSize ≤ nodes.size then evict maxSize (nodes.erase lruKey) rest
    else (nodes, lruKey :: rest)

/-- Insert a node, evicting the least recently used ones if necessary. -/
def insert (cache : NodeCache Digest) (key : NodeKey) (hash : Digest) : NodeCache Digest :=
  match cache.nodes.lookup key with
  | some _ =>
    { cache with
      nodes := cache.nodes.insert key hash
      accessOrder := cache.accessOrder.erase key ++ [key] }
  | none =>
    let (nodes, accessOrder) := evict cache.maxSize cache.nodes cache.accessOrder
    { cache with
      nodes := nodes.insert key hash
      accessOrder := accessOrder ++ [key] }

/-- Every cached node is the node `node` gives for its place. -/
def Coherent (node : ℕ → ℕ → Digest) (cache : NodeCache Digest) : Prop :=
  ∀ key hash, cache.nodes.lookup key = some hash → hash = node key.1 key.2

variable {node : ℕ → ℕ → Digest} {cache : NodeCache Digest} (maxSize : ℕ)

theorem coherent_new : (new maxSize : NodeCache Digest).Coherent node := by
  intro key hash found
  exact (some_ne_none hash (found.symm.trans (AList.lookup_empty key))).elim

theorem get_fst (cache : NodeCache Digest) (key : NodeKey) :
    (cache.get key).1 = cache.nodes.lookup key := by
  unfold get
  cases cache.nodes.lookup key with
  | none => rfl
  | some hash => dsimp only; split <;> rfl

theorem get_snd_nodes (key : NodeKey) : (cache.get key).2.nodes = cache.nodes := by
  unfold get
  cases cache.nodes.lookup key with
  | none => rfl
  | some hash => dsimp only; split <;> rfl

theorem Coherent.get (coherent : cache.Coherent node) (key : NodeKey) :
    (cache.get key).2.Coherent node := by
  intro query hash found
  rw [get_snd_nodes] at found
  exact coherent query hash found

theorem lookup_evict (nodes : Table NodeKey Digest) (order : List NodeKey) {key : NodeKey}
    {hash : Digest} (found : (evict maxSize nodes order).1.lookup key = some hash) :
    nodes.lookup key = some hash := by
  induction order generalizing nodes with
  | nil => exact found
  | cons lruKey rest ih =>
    rw [evict] at found
    split at found
    · have kept := ih _ found
      rw [Table.lookup_erase_eq] at kept
      split at kept
      · exact (some_ne_none hash kept.symm).elim
      · exact kept
    · exact found

theorem Coherent.insert (coherent : cache.Coherent node) (level index : ℕ) :
    (cache.insert (level, index) (node level index)).Coherent node := by
  -- either branch puts the node into a table that holds only nodes of the cache
  have update (nodes : Table NodeKey Digest)
      (fewer : ∀ key hash, nodes.lookup key = some hash → cache.nodes.lookup key = some hash)
      (key : NodeKey) (hash : Digest)
      (found : (nodes.insert (level, index) (node level index)).lookup key = some hash) :
      hash = node key.1 key.2 := by
    rcases Table.eq_or_lookup_of_insert found with ⟨rfl, rfl⟩ | ⟨-, found⟩
    · rfl
    · exact coherent key hash (fewer key hash found)
  unfold NodeCache.insert
  split
  · exact update cache.nodes fun _ _ found => found
  · exact update _ fun _ _ found => lookup_evict _ _ _ found

end NodeCache

/-- Compact proof for one leaf: siblings from leaf to root, and for each of them
whether the current node is the right child. -/
structure MerkleProof (Digest : Type*) where
  siblings : List Digest
  leafIndex : ℕ
  directions : List Bool

namespace MerkleProof

variable {Digest : Type*} [DecidableEq Digest] (hashPair : Digest → Digest → Digest)

def verify (proof : MerkleProof Digest) (leafHash expectedRoot : Digest) : Bool :=
  if proof.siblings.length ≠ proof.directions.length then false
  else
    (proof.siblings.zip proof.directions).foldl (fun current step =>
      if step.2 then hashPair step.1 current else hashPair current step.1) leafHash = expectedRoot

theorem verify_iff (proof : MerkleProof Digest) (leafHash expectedRoot : Digest) :
    proof.verify hashPair leafHash expectedRoot = true ↔
      proof.siblings.length = proof.directions.length ∧
        climb hashPair leafHash (proof.siblings.zip proof.directions) = expectedRoot := by
  unfold verify
  by_cases same : proof.siblings.length = proof.directions.length
  · rw [if_neg (not_not.mpr same), decide_eq_true_eq]
    exact (and_iff_right same).symm
  · simp [same, ↓reduceIte]

end MerkleProof

structure SparseMerkleTree (Digest : Type*) where
  leaves : List Digest
  cache : NodeCache Digest
  root : Digest
  height : ℕ

namespace SparseMerkleTree

variable {Digest : Type*} (hashPair : Digest → Digest → Digest) (zero : Digest)

def hashChunks : List Digest → List Digest
  | left :: right :: rest => hashPair left right :: hashChunks rest
  | _ => []

def padEven (level : List Digest) : List Digest :=
  if level.length % 2 = 1 then level ++ level.getLast?.toList else level

theorem hashChunks_padEven (level : List Digest) :
    hashChunks hashPair (padEven level) = pairUp hashPair level := by
  induction level using pairUp.induct with
  | case1 => rfl
  | case2 last => rfl
  | case3 left right rest ih =>
    have padded : padEven (left :: right :: rest) = left :: right :: padEven rest := by
      unfold padEven
      rw [length_cons, length_cons, show (rest.length + 1 + 1) % 2 = rest.length % 2 by omega]
      split
      · next odd =>
        cases rest with
        | nil => simp at odd
        | cons next rest => simp [getLast?_cons_cons]
      · rfl
    rw [padded, hashChunks, ih, pairUp]

/-- The reduction loop of `compute_root_parallel`. -/
def reduceLevels (level : List Digest) : List Digest :=
  if 1 < level.length then reduceLevels (hashChunks hashPair (padEven level)) else level
termination_by level.length
decreasing_by
  rw [hashChunks_padEven, length_pairUp]
  omega

def computeRootParallel (leaves : List Digest) : Digest :=
  match leaves with
  | [] => zero
  | [leaf] => leaf
  | _ => (reduceLevels hashPair leaves).headD zero

/-- Create a sparse Merkle tree with a custom cache size. The height is the
exact ceiling of the binary logarithm. -/
def fromLeavesWithCacheSize (leaves : List Digest) (cacheSize : ℕ) : SparseMerkleTree Digest where
  leaves := leaves
  cache := NodeCache.new cacheSize
  root := computeRootParallel hashPair zero leaves
  height := if leaves.isEmpty then 0 else Nat.clog 2 leaves.length

def fromLeaves (leaves : List Digest) : SparseMerkleTree Digest :=
  fromLeavesWithCacheSize hashPair zero leaves 1000

def sizeAtLevel (leaves : List Digest) (level : ℕ) : ℕ :=
  (fun size => (size + 1) / 2)^[level] leaves.length

def getNodeAtLevel (leaves : List Digest) :
    (level index : ℕ) → NodeCache Digest → Digest × NodeCache Digest
  | 0, index, cache => (leaves.getD index zero, cache)
  | level + 1, index, cache =>
    match cache.get (level + 1, index) with
    | (some hash, cache) => (hash, cache)
    | (none, cache) =>
      let leftIdx := index * 2
      let rightIdx := leftIdx + 1
      let (left, cache) := getNodeAtLevel leaves level leftIdx cache
      let (right, cache) :=
        if rightIdx < sizeAtLevel leaves level then getNodeAtLevel leaves level rightIdx cache
        else (left, cache)
      let hash := hashPair left right
      (hash, cache.insert (level + 1, index) hash)

/-- The loop of `generate_proof` over the remaining levels: siblings, directions
and the cache afterwards. -/
def proofLevels (leaves : List Digest) :
    (remaining level index levelSize : ℕ) → NodeCache Digest →
      List Digest × List Bool × NodeCache Digest
  | 0, _, _, _, cache => ([], [], cache)
  | remaining + 1, level, index, levelSize, cache =>
    if levelSize ≤ 1 then ([], [], cache)
    else
      let isRight : Bool := index % 2 = 1
      let siblingIndex := if isRight then index - 1 else index + 1
      let (siblingHash, cache) :=
        if siblingIndex < levelSize then
          getNodeAtLevel hashPair zero leaves level siblingIndex cache
        -- odd number of nodes: the sibling is the current node
        else getNodeAtLevel hashPair zero leaves level index cache
      let (siblings, directions, cache) :=
        proofLevels leaves remaining (level + 1) (index / 2) ((levelSize + 1) / 2) cache
      (siblingHash :: siblings, isRight :: directions, cache)

def generateProof (tree : SparseMerkleTree Digest) (leafIndex : ℕ) :
    MerkleProof Digest × SparseMerkleTree Digest :=
  if tree.leaves.length ≤ leafIndex then ⟨⟨[], leafIndex, []⟩, tree⟩
  else
    let (siblings, directions, cache) :=
      proofLevels hashPair zero tree.leaves tree.height 0 leafIndex tree.leaves.length tree.cache
    (⟨siblings, leafIndex, directions⟩, { tree with cache := cache })

def verifyChunk [DecidableEq Digest] (tree : SparseMerkleTree Digest) (index : ℕ)
    (chunkHash : Digest) : Bool × SparseMerkleTree Digest :=
  if tree.leaves.length ≤ index then (false, tree)
  else if tree.leaves.getD index zero ≠ chunkHash then (false, tree)
  else
    let (proof, tree) := generateProof hashPair zero tree index
    (proof.verify hashPair chunkHash tree.root, tree)

/-- A query on the tree. A random sample is a sequence of chunk verifications. -/
inductive Query (Digest : Type*) where
  | generateProof (leafIndex : ℕ)
  | verifyChunk (index : ℕ) (chunkHash : Digest)

variable [DecidableEq Digest]

def afterQuery (tree : SparseMerkleTree Digest) : Query Digest → SparseMerkleTree Digest
  | .generateProof leafIndex => (tree.generateProof hashPair zero leafIndex).2
  | .verifyChunk index chunkHash => (tree.verifyChunk hashPair zero index chunkHash).2

def afterQueries (tree : SparseMerkleTree Digest) (history : List (Query Digest)) :
    SparseMerkleTree Digest :=
  history.foldl (afterQuery hashPair zero) tree

section Specification

omit [DecidableEq Digest]

def node (leaves : List Digest) (level index : ℕ) : Digest :=
  (levelAt hashPair level leaves).getD index zero

variable (leaves : List Digest)
include leaves

theorem sizeAtLevel_eq (level : ℕ) :
    sizeAtLevel leaves level = (levelAt hashPair level leaves).length := by
  unfold sizeAtLevel
  induction level with
  | zero => rfl
  | succ level ih =>
    rw [Function.iterate_succ_apply', ih, levelAt_succ_pairUp, length_pairUp]

/-- A node above the leaves hashes its two children, the last one twice when its
level is odd. -/
theorem node_succ {level index : ℕ} (inside : index < (levelAt hashPair (level + 1) leaves).length) :
    node hashPair zero leaves (level + 1) index =
      hashPair (node hashPair zero leaves level (index * 2))
        (if index * 2 + 1 < (levelAt hashPair level leaves).length
          then node hashPair zero leaves level (index * 2 + 1)
          else node hashPair zero leaves level (index * 2)) := by
  unfold node
  rw [levelAt_succ_pairUp] at inside ⊢
  rw [length_pairUp] at inside
  generalize levelAt hashPair level leaves = below at inside ⊢
  have left : index * 2 < below.length := by omega
  rw [getD_eq_getElem?_getD, getElem?_pairUp, mul_comm 2 index,
    getElem?_eq_getElem left, map_some, getD_some,
    getD_eq_getElem _ _ left]
  congr 1
  split
  · next right =>
    rw [getElem?_eq_getElem right, getD_some, getD_eq_getElem _ _ right]
  · next last => rw [getElem?_eq_none (by omega), getD_none]

variable {cache : NodeCache Digest}

/-- **Reading through the cache.** From a coherent cache the read gives the node
of the fold and leaves the cache coherent. -/
theorem getNodeAtLevel_spec (level index : ℕ)
    (coherent : cache.Coherent (node hashPair zero leaves))
    (inside : index < (levelAt hashPair level leaves).length) :
    (getNodeAtLevel hashPair zero leaves level index cache).1 =
        node hashPair zero leaves level index ∧
      (getNodeAtLevel hashPair zero leaves level index cache).2.Coherent
        (node hashPair zero leaves) := by
  induction level generalizing index cache with
  | zero => exact ⟨rfl, coherent⟩
  | succ level ih =>
    have stored := cache.get_fst (level + 1, index)
    have kept := coherent.get (level + 1, index)
    rw [getNodeAtLevel]
    rcases read : cache.get (level + 1, index) with ⟨_ | hash, after⟩
    · rw [read] at kept
      have width : index < ((levelAt hashPair level leaves).length + 1) / 2 := by
        rw [levelAt_succ_pairUp, length_pairUp] at inside
        exact inside
      obtain ⟨left, afterLeft⟩ := ih (index * 2) kept (by omega)
      have children := node_succ hashPair zero leaves inside
      simp only [sizeAtLevel_eq hashPair]
      by_cases paired : index * 2 + 1 < (levelAt hashPair level leaves).length
      · obtain ⟨right, afterRight⟩ := ih (index * 2 + 1) afterLeft paired
        simp only [paired, ↓reduceIte] at children ⊢
        rw [left, right, ← children]
        exact ⟨rfl, afterRight.insert (level + 1) index⟩
      · simp only [paired, ↓reduceIte] at children ⊢
        rw [left, ← children]
        exact ⟨rfl, afterLeft.insert (level + 1) index⟩
    · rw [read] at stored kept
      exact ⟨coherent _ hash stored.symm, kept⟩

/-- The loop of `generate_proof` lists the partners of an index and its binary
digits, and leaves the cache coherent. -/
theorem proofLevels_spec (remaining level index : ℕ)
    (coherent : cache.Coherent (node hashPair zero leaves))
    (inside : index < (levelAt hashPair level leaves).length)
    (tall : clog 2 (levelAt hashPair level leaves).length = remaining) :
    ∃ after : NodeCache Digest, after.Coherent (node hashPair zero leaves) ∧
      proofLevels hashPair zero leaves remaining level index
          (levelAt hashPair level leaves).length cache =
        (partners hashPair zero (lowBits remaining index) (levelAt hashPair level leaves),
          lowBits remaining index, after) := by
  induction remaining generalizing level index cache with
  | zero => exact ⟨cache, coherent, rfl⟩
  | succ remaining ih =>
    have several := two_le_of_clog_succ tall
    have half := clog_half tall
    have up := levelAt_succ_pairUp hashPair level leaves
    have parity : (decide (index % 2 = 1) = true ↔ ¬ index % 2 = 0) := by
      rw [decide_eq_true_eq]
      omega
    have neighbour : (if decide (index % 2 = 1) = true then index - 1 else index + 1) =
        if index % 2 = 0 then index + 1 else index - 1 := by
      simp only [parity, ite_not]
    have sibling := getNodeAtLevel_spec hashPair zero leaves level
      (if (if index % 2 = 0 then index + 1 else index - 1) <
          (levelAt hashPair level leaves).length
        then (if index % 2 = 0 then index + 1 else index - 1) else index) coherent
      (by rw [partner_index inside]; omega)
    obtain ⟨value, kept⟩ := sibling
    obtain ⟨after, afterCoherent, above⟩ := ih (level + 1) (index / 2) kept
      (by rw [up, length_pairUp]; omega) (by rw [up, length_pairUp]; exact half)
    rw [up, length_pairUp] at above
    refine ⟨after, afterCoherent, ?_⟩
    rw [proofLevels, if_neg (by omega), lowBits_succ, partners,
      position_lowBits remaining _ _ (by omega) half]
    simp only [neighbour]
    rw [← apply_ite (fun place => getNodeAtLevel hashPair zero leaves level place cache), above,
      value, node, partner_index inside]

omit leaves in
theorem reduceLevels_eq (count : ℕ) (level : List Digest) (nonempty : level ≠ [])
    (tall : clog 2 level.length = count) :
    (reduceLevels hashPair level).headD zero = top hashPair zero level := by
  induction count generalizing level with
  | zero =>
    obtain ⟨value, rfl⟩ := eq_singleton_of_clog_zero nonempty tall
    rw [reduceLevels]
    rfl
  | succ count ih =>
    have several := two_le_of_clog_succ tall
    rw [reduceLevels, if_pos (by omega), hashChunks_padEven, top_pairUp hashPair zero several]
    exact ih _ (pairUp_ne_nil hashPair nonempty) (by rw [length_pairUp]; exact clog_half tall)

theorem computeRootParallel_eq :
    computeRootParallel hashPair zero leaves = top hashPair zero leaves := by
  unfold computeRootParallel
  split
  · rfl
  · rfl
  · next empty _ => exact reduceLevels_eq hashPair zero _ leaves empty rfl

end Specification

omit [DecidableEq Digest]

/-- What every query leaves as it was: the leaves, the root, the height and the
coherence of the cache. -/
structure Faithful (leaves : List Digest) (tree : SparseMerkleTree Digest) : Prop where
  leaves_eq : tree.leaves = leaves
  root_eq : tree.root = top hashPair zero leaves
  height_eq : tree.height = Nat.clog 2 leaves.length
  coherent : tree.cache.Coherent (node hashPair zero leaves)

variable {hashPair zero} {leaves : List Digest} {tree : SparseMerkleTree Digest} {leafIndex : ℕ}

theorem faithful_fromLeavesWithCacheSize (leaves : List Digest) (cacheSize : ℕ) :
    Faithful hashPair zero leaves (fromLeavesWithCacheSize hashPair zero leaves cacheSize) where
  leaves_eq := rfl
  root_eq := computeRootParallel_eq hashPair zero leaves
  height_eq := by
    cases leaves with
    | nil => rfl
    | cons leaf rest => rfl
  coherent := NodeCache.coherent_new cacheSize

section
variable (faithful : Faithful hashPair zero leaves tree)
include faithful

theorem generateProof_spec (inside : leafIndex < leaves.length) :
    (tree.generateProof hashPair zero leafIndex).1 =
        { siblings := partners hashPair zero (lowBits (clog 2 leaves.length) leafIndex) leaves
          leafIndex := leafIndex
          directions := lowBits (clog 2 leaves.length) leafIndex } ∧
      Faithful hashPair zero leaves (tree.generateProof hashPair zero leafIndex).2 := by
  obtain ⟨rfl, root_eq, height_eq, coherent⟩ := faithful
  obtain ⟨after, kept, levels⟩ := proofLevels_spec hashPair zero tree.leaves _ 0 leafIndex coherent
    inside rfl
  rw [levelAt_zero] at levels
  rw [generateProof, if_neg (by omega), height_eq, levels]
  exact ⟨rfl, rfl, root_eq, rfl, kept⟩

theorem Faithful.generateProof (leafIndex : ℕ) :
    Faithful hashPair zero leaves (tree.generateProof hashPair zero leafIndex).2 := by
  by_cases inside : leafIndex < leaves.length
  · exact (generateProof_spec faithful inside).2
  · rw [SparseMerkleTree.generateProof, if_pos (by rw [faithful.leaves_eq]; omega)]
    exact faithful

theorem Faithful.verifyChunk [DecidableEq Digest] (index : ℕ) (chunkHash : Digest) :
    Faithful hashPair zero leaves (tree.verifyChunk hashPair zero index chunkHash).2 := by
  unfold SparseMerkleTree.verifyChunk
  split
  · exact faithful
  · split
    · exact faithful
    · exact faithful.generateProof index

theorem Faithful.afterQueries [DecidableEq Digest] (history : List (Query Digest)) :
    Faithful hashPair zero leaves (tree.afterQueries hashPair zero history) := by
  induction history generalizing tree with
  | nil => exact faithful
  | cons query history ih =>
    apply ih
    cases query with
    | generateProof leafIndex => exact faithful.generateProof leafIndex
    | verifyChunk index chunkHash => exact faithful.verifyChunk index chunkHash

end

variable [DecidableEq Digest]

theorem verify_generateProof (faithful : Faithful hashPair zero leaves tree)
    (inside : leafIndex < leaves.length) :
    (tree.generateProof hashPair zero leafIndex).1.verify hashPair leaves[leafIndex]
      (top hashPair zero leaves) = true := by
  rw [(generateProof_spec faithful inside).1, MerkleProof.verify_iff]
  refine ⟨length_partners .., ?_⟩
  have nonempty : leaves ≠ [] := length_pos_iff.mp (by omega)
  have climbs := climb_partners hashPair zero (lowBits (clog 2 leaves.length) leafIndex)
    nonempty (length_lowBits _ _).symm
  rw [position_lowBits _ _ _ inside rfl, getD_eq_getElem _ _ inside] at climbs
  exact climbs

/-- A chunk hash is accepted exactly when it is the leaf at its index. -/
theorem verifyChunk_iff (faithful : Faithful hashPair zero leaves tree) (index : ℕ)
    (chunkHash : Digest) :
    (tree.verifyChunk hashPair zero index chunkHash).1 = true ↔
      leaves[index]? = some chunkHash := by
  by_cases inside : index < leaves.length
  · rw [getElem?_eq_getElem inside, Option.some.injEq, verifyChunk, faithful.leaves_eq,
      if_neg (by omega), getD_eq_getElem _ _ inside]
    by_cases same : leaves[index] = chunkHash
    · subst same
      simp only [ne_eq, not_true_eq_false, ↓reduceIte, iff_true]
      rw [(faithful.generateProof index).root_eq]
      exact verify_generateProof faithful inside
    · simp [same, ↓reduceIte]
  · rw [getElem?_eq_none (by omega), verifyChunk, faithful.leaves_eq, if_pos (by omega)]
    simp

end SparseMerkleTree

end Warp.Format
