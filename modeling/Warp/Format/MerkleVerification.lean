import Warp.Format.SparseMerkleTree

/-! # Agreement, completeness and soundness of Merkle proofs

The stored and the sparse tree have the same root and proofs, whatever was asked before, and every
verifier accepts them (`sparse_agrees_with_stored`). No verifier relates the index to the number of
leaves. With an injective pair hash whose values are never leaves, `verify_proof` is sound exactly
for the indices inside the list, and `MerkleProof::verify` exactly when the directions lead to a
leaf equal to the one at its index (`merkle_proofs_sound_iff`).
-/

namespace Warp.Format

open PairFold List MerkleTree SparseMerkleTree MerkleProof

variable {Digest : Type*} [DecidableEq Digest] (hashPair : Digest → Digest → Digest)
  (zero : Digest)

/-- **Both implementations agree and are complete.** After any history of
queries, and for any cache size, the sparse tree has the root of the stored one,
its proofs are the stored proofs with the binary digits of the index, and all
verifiers accept them. -/
theorem sparse_agrees_with_stored (leaves : List Digest) (cacheSize : ℕ)
    (history : List (SparseMerkleTree.Query Digest)) :
    let tree := (SparseMerkleTree.fromLeavesWithCacheSize hashPair zero leaves
      cacheSize).afterQueries hashPair zero history
    let stored := MerkleTree.fromLeaves hashPair zero leaves
    tree.root = stored.root zero ∧
      ∀ (index : ℕ) (inside : index < leaves.length),
        let proof := (tree.generateProof hashPair zero index).1
        proof.siblings = stored.proof zero index ∧
          proof.leafIndex = index ∧
          proof.directions = (List.range tree.height).map index.testBit ∧
          index < 2 ^ tree.height ∧
          MerkleTree.verifyProof hashPair leaves[index] (stored.proof zero index)
            (stored.root zero) index = true ∧
          proof.verify hashPair leaves[index] tree.root = true ∧
          (tree.verifyChunk hashPair zero index leaves[index]).1 = true := by
  intro tree stored
  have faithful : SparseMerkleTree.Faithful hashPair zero leaves tree :=
    (faithful_fromLeavesWithCacheSize leaves cacheSize).afterQueries history
  have sameRoot : tree.root = stored.root zero :=
    faithful.root_eq.trans (root_fromLeaves hashPair zero leaves).symm
  refine ⟨sameRoot, ?_⟩
  intro index inside proof
  obtain ⟨generated, -⟩ := generateProof_spec faithful inside
  have siblings : proof.siblings = stored.proof zero index :=
    (congrArg MerkleProof.siblings generated).trans (proof_fromLeaves hashPair zero inside).symm
  have accepted : proof.verify hashPair leaves[index] tree.root = true := by
    rw [faithful.root_eq]
    exact verify_generateProof faithful inside
  refine ⟨siblings, congrArg MerkleProof.leafIndex generated, ?_, ?_, ?_, accepted, ?_⟩
  · rw [faithful.height_eq]
    exact congrArg MerkleProof.directions generated
  · rw [faithful.height_eq]
    exact inside.trans_le (Nat.le_pow_clog Nat.one_lt_two _)
  · obtain ⟨sameLength, climbs⟩ := (verify_iff ..).mp accepted
    have directions : proof.directions = lowBits proof.siblings.length index := by
      rw [sameLength, congrArg MerkleProof.directions generated, length_lowBits]
    rw [verifyProof_iff, ← siblings, ← directions, ← sameRoot]
    exact climbs
  · exact (verifyChunk_iff faithful index _).mpr (getElem?_eq_getElem inside)

/-- Digests of an idealized pair hash: leaves, and pairs that remember both
sides. -/
inductive SymbolicDigest where
  | leaf (name : ℕ)
  | pair (left right : SymbolicDigest)
  deriving DecidableEq

namespace SymbolicDigest

/-- The digest is a leaf, not a pair. -/
def IsLeaf : SymbolicDigest → Prop
  | leaf _ => True
  | pair _ _ => False

end SymbolicDigest

open SymbolicDigest

/-- The proof of the third leaf, after two queries with a cache of one entry. -/
theorem sparse_agrees_with_stored_three :
    let tree := (SparseMerkleTree.fromLeavesWithCacheSize pair (.leaf 0)
      [.leaf 1, .leaf 2, .leaf 3] 1).afterQueries pair (.leaf 0)
        [.generateProof 0, .verifyChunk 2 (.leaf 3)]
    (tree.generateProof pair (.leaf 0) 2).1.siblings =
      (MerkleTree.fromLeaves pair (.leaf 0)
        [.leaf 1, .leaf 2, .leaf 3]).proof (.leaf 0) 2 :=
  ((sparse_agrees_with_stored pair (.leaf 0) [.leaf 1, .leaf 2, .leaf 3] 1
    [.generateProof 0, .verifyChunk 2 (.leaf 3)]).2 2 (by decide)).1

variable (leaf : Digest → Prop) {leaves : List Digest}

omit [DecidableEq Digest] in
/-- A verifier's proof of the right length starts at the leaf its directions
select. -/
theorem getElem?_position_of_climb (injective : Function.Injective2 hashPair)
    (nonempty : leaves ≠ []) {start : Digest} {path : List (Digest × Bool)}
    (tall : path.length = Nat.clog 2 leaves.length)
    (reached : climb hashPair start path = top hashPair zero leaves) :
    leaves[position (path.map Prod.snd) leaves.length]? = some start := by
  obtain ⟨here, -⟩ := climb_eq_top hashPair injective zero start path nonempty tall.symm reached
  have inside := position_lt (path.map Prod.snd) (length_pos_iff.mpr nonempty)
  rw [List.getElem?_eq_getElem inside, here, getD_eq_getElem _ _ inside]

omit [DecidableEq Digest] in
/-- Any directions as many as the tree is high lead from the leaf they select to
the root. -/
theorem exists_climb_from_position (nonempty : leaves ≠ []) (directions : List Bool)
    (tall : directions.length = Nat.clog 2 leaves.length) :
    ∃ (inside : position directions leaves.length < leaves.length) (siblings : List Digest),
      siblings.length = directions.length ∧
        climb hashPair leaves[position directions leaves.length] (siblings.zip directions) =
          top hashPair zero leaves := by
  have inside := position_lt directions (length_pos_iff.mpr nonempty)
  refine ⟨inside, partners hashPair zero directions leaves, length_partners .., ?_⟩
  rw [← getD_eq_getElem _ zero inside]
  exact climb_partners hashPair zero directions nonempty tall.symm

section Verifiers
variable {leaf} (injective : Function.Injective2 hashPair)
  (separate : ∀ left right, ¬ leaf (hashPair left right)) {leaves : List Digest}
  (nonempty : leaves ≠ []) (allLeaves : ∀ value ∈ leaves, leaf value)
include injective separate nonempty allLeaves
variable (index : ℕ)

theorem verifyProof_sound_iff :
    (∀ (hash : Digest) (proof : List Digest), leaf hash →
      MerkleTree.verifyProof hashPair hash proof (top hashPair zero leaves) index = true →
      leaves[index]? = some hash) ↔ index < leaves.length := by
  constructor
  · intro sound
    obtain ⟨inside, siblings, siblingsLength, reached⟩ := exists_climb_from_position hashPair zero
      nonempty (lowBits (Nat.clog 2 leaves.length) index) (length_lowBits _ _)
    have accepted := sound _ siblings (allLeaves _ (getElem_mem inside))
      ((verifyProof_iff ..).mpr (by
        rw [siblingsLength, length_lowBits]
        exact reached))
    exact (List.getElem?_eq_some_iff.mp accepted).1
  · intro inside hash proof isLeaf accepted
    rw [verifyProof_iff] at accepted
    have tall := length_eq_of_climb_eq_top hashPair leaf separate
      injective zero hash _ nonempty allLeaves isLeaf accepted
    have found := getElem?_position_of_climb hashPair zero injective nonempty tall accepted
    rw [length_zip, length_lowBits, Nat.min_self] at tall
    rw [map_snd_zip (by rw [length_lowBits]), tall, position_lowBits _ _ _ inside rfl] at found
    exact found

theorem verify_sound_iff (directions : List Bool) :
    (∀ (hash : Digest) (siblings : List Digest), leaf hash →
      (MerkleProof.mk siblings index directions).verify hashPair hash
        (top hashPair zero leaves) = true → leaves[index]? = some hash) ↔
      (directions.length ≠ Nat.clog 2 leaves.length ∨
        leaves[index]? = leaves[position directions leaves.length]?) := by
  constructor
  · intro sound
    by_cases tall : directions.length = Nat.clog 2 leaves.length
    · right
      obtain ⟨inside, siblings, siblingsLength, reached⟩ := exists_climb_from_position hashPair
        zero nonempty directions tall
      rw [getElem?_eq_getElem inside]
      exact sound _ siblings (allLeaves _ (getElem_mem inside))
        ((verify_iff ..).mpr ⟨siblingsLength, reached⟩)
    · exact Or.inl tall
  · intro condition hash siblings isLeaf accepted
    obtain ⟨sameLength, reached⟩ := (verify_iff ..).mp accepted
    have tall := length_eq_of_climb_eq_top hashPair leaf separate
      injective zero hash _ nonempty allLeaves isLeaf reached
    have found := getElem?_position_of_climb hashPair zero injective nonempty tall reached
    rw [map_snd_zip sameLength.ge] at found
    rcases condition with short | same
    · refine (short ?_).elim
      rw [← tall, length_zip, sameLength, Nat.min_self]
    · exact same.trans found

end Verifiers

/-- **When the verifiers are sound.** For an injective pair hash whose values are
never leaves: `verify_proof` accepts at an index only the leaf stored there if
and only if the index lies inside the list, and `MerkleProof::verify` accepts
for a `leaf_index` only the leaf stored there if and only if the number of
directions is not the height of the tree or they lead to a leaf equal to the one
at that index. -/
theorem merkle_proofs_sound_iff (injective : Function.Injective2 hashPair)
    (separate : ∀ left right, ¬ leaf (hashPair left right)) (leaves : List Digest)
    (nonempty : leaves ≠ []) (allLeaves : ∀ value ∈ leaves, leaf value) :
    (∀ index : ℕ,
      (∀ (hash : Digest) (proof : List Digest), leaf hash →
        MerkleTree.verifyProof hashPair hash proof
          ((MerkleTree.fromLeaves hashPair zero leaves).root zero) index = true →
        leaves[index]? = some hash) ↔ index < leaves.length) ∧
    ∀ (index : ℕ) (directions : List Bool),
      (∀ (hash : Digest) (siblings : List Digest), leaf hash →
        (MerkleProof.mk siblings index directions).verify hashPair hash
          ((MerkleTree.fromLeaves hashPair zero leaves).root zero) = true →
        leaves[index]? = some hash) ↔
      (directions.length ≠ Nat.clog 2 leaves.length ∨
        leaves[index]? = leaves[position directions leaves.length]?) := by
  rw [root_fromLeaves]
  exact ⟨verifyProof_sound_iff hashPair zero injective separate nonempty allLeaves,
    verify_sound_iff hashPair zero injective separate nonempty allLeaves⟩

/-- Three leaves: the last one is also accepted at index 3, past the end, and the
second one is accepted with the leaf index of the first. -/
theorem merkle_proofs_unsound_at_three :
    Function.Injective2 SymbolicDigest.pair ∧
      (∀ left right, ¬ (SymbolicDigest.pair left right).IsLeaf) ∧
      let leaves : List SymbolicDigest := [.leaf 1, .leaf 2, .leaf 3]
      let root := (MerkleTree.fromLeaves pair (.leaf 0) leaves).root (.leaf 0)
      (∀ value ∈ leaves, value.IsLeaf) ∧
      (MerkleTree.verifyProof pair (.leaf 3)
          [.leaf 3, .pair (.leaf 1) (.leaf 2)] root 3 = true ∧ ¬ 3 < leaves.length) ∧
      ((MerkleProof.mk [.leaf 1, .pair (.leaf 3) (.leaf 3)] 0 [true, false]).verify
          pair (.leaf 2) root = true ∧ leaves[0]? ≠ some (.leaf 2)) := by
  refine ⟨fun _ _ _ _ same => pair.inj same, fun _ _ absurd => absurd, ?_⟩
  intro leaves root
  have rootIs : root = .pair (.pair (.leaf 1) (.leaf 2)) (.pair (.leaf 3) (.leaf 3)) := by
    rw [show root = _ from root_fromLeaves pair (.leaf 0) leaves,
      top_pairUp _ _ (by decide), top_pairUp _ _ (by decide)]
    rfl
  rw [rootIs]
  refine ⟨?_, by decide, by decide⟩
  intro value member
  simp only [leaves, mem_cons, not_mem_nil, or_false] at member
  rcases member with rfl | rfl | rfl <;> trivial

/-- Three leaves, and the index of the last one. -/
theorem merkle_proofs_sound_iff_three :
    (∀ (hash : SymbolicDigest) (proof : List SymbolicDigest), hash.IsLeaf →
      MerkleTree.verifyProof SymbolicDigest.pair hash proof
        ((MerkleTree.fromLeaves SymbolicDigest.pair (.leaf 0)
          [.leaf 1, .leaf 2, .leaf 3]).root (.leaf 0)) 2 = true →
      [SymbolicDigest.leaf 1, .leaf 2, .leaf 3][2]? = some hash) ↔
      2 < [SymbolicDigest.leaf 1, .leaf 2, .leaf 3].length :=
  (merkle_proofs_sound_iff pair (.leaf 0) SymbolicDigest.IsLeaf
    (fun _ _ _ _ same => pair.inj same) (fun _ _ absurd => absurd)
    [.leaf 1, .leaf 2, .leaf 3] (by decide) (by
      intro value member
      simp only [mem_cons, not_mem_nil, or_false] at member
      rcases member with rfl | rfl | rfl <;> trivial)).1 2

end Warp.Format
