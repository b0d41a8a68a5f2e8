import Warp.Format.MerkleVerification

/-! # What a Merkle root binds

An odd level is completed by its last node, so a list and the same list with its last leaf repeated
can have one root (`merkle_root_hides_length`). With an injective pair hash whose values are never
leaves, lists of the same length with the same root are equal (`merkle_root_binds`).
-/

namespace Warp.Format

open PairFold List SymbolicDigest

variable {Digest : Type*} (hashPair : Digest → Digest → Digest) (zero : Digest)
  (leaves : List Digest)

namespace MerkleTree

/-- The leaves of the tree in which every odd level is completed by its last
node. -/
def completedLeaves (leaves : List Digest) : List Digest :=
  let height := Nat.clog 2 leaves.length
  (List.range (2 ^ height)).map fun index =>
    leaves.getD (position (lowBits height index) leaves.length) zero

end MerkleTree

open MerkleTree

theorem length_completedLeaves :
    (completedLeaves zero leaves).length = 2 ^ Nat.clog 2 leaves.length := by
  simp [completedLeaves]

/-- Completed trees of one height have the same leaves exactly if the lists agree at
every position directions select. -/
theorem completedLeaves_eq_iff {first second : List Digest}
    (sameHeight : Nat.clog 2 first.length = Nat.clog 2 second.length) :
    completedLeaves zero first = completedLeaves zero second ↔
      ∀ bits : List Bool, bits.length = Nat.clog 2 first.length →
        first.getD (position bits first.length) zero =
          second.getD (position bits second.length) zero := by
  simp only [completedLeaves, ← sameHeight, map_inj_left, mem_range]
  constructor
  · intro agree bits length
    obtain ⟨index, small, digits⟩ := exists_lowBits_eq bits
    rw [length] at small digits
    rw [← digits]
    exact agree index small
  · intro agree index _
    exact agree _ (length_lowBits _ _)

theorem take_completedLeaves :
    (completedLeaves zero leaves).take leaves.length = leaves := by
  apply ext_getElem?
  intro index
  by_cases inside : index < leaves.length
  · have small : index < 2 ^ Nat.clog 2 leaves.length :=
      inside.trans_le (Nat.le_pow_clog Nat.one_lt_two _)
    rw [getElem?_take_of_lt inside, completedLeaves, getElem?_map,
      getElem?_range small, Option.map_some, position_lowBits _ _ _ inside rfl,
      getD_eq_getElem _ _ inside, getElem?_eq_getElem inside]
  · rw [getElem?_eq_none (by rw [length_take]; omega), getElem?_eq_none (by omega)]

/-- **What the root binds.** For an injective pair hash whose values are never leaves,
the roots of two lists are equal if and only if their completed trees have the same
leaves; lists of the same length with the same root are equal. -/
theorem merkle_root_binds (leaf : Digest → Prop) (injective : Function.Injective2 hashPair)
    (separate : ∀ left right, ¬ leaf (hashPair left right)) (first second : List Digest)
    (firstNonempty : first ≠ []) (secondNonempty : second ≠ [])
    (firstLeaves : ∀ value ∈ first, leaf value) (secondLeaves : ∀ value ∈ second, leaf value) :
    ((fromLeaves hashPair zero first).root zero = (fromLeaves hashPair zero second).root zero ↔
      completedLeaves zero first = completedLeaves zero second) ∧
    ((fromLeaves hashPair zero first).root zero = (fromLeaves hashPair zero second).root zero →
      first.length = second.length → first = second) := by
  have characterization :
      (fromLeaves hashPair zero first).root zero = (fromLeaves hashPair zero second).root zero ↔
        completedLeaves zero first = completedLeaves zero second := by
    rw [root_fromLeaves, root_fromLeaves]
    constructor
    · intro same
      have sameHeight := clog_eq_of_top_eq hashPair leaf separate injective
        zero firstNonempty secondNonempty firstLeaves secondLeaves same
      apply (completedLeaves_eq_iff zero sameHeight).mpr
      intro bits length
      exact positions_eq_of_top_eq hashPair injective zero firstNonempty
        secondNonempty length.symm (sameHeight.symm.trans length.symm) same
    · intro same
      have sameHeight : Nat.clog 2 first.length = Nat.clog 2 second.length := by
        have lengths := congrArg List.length same
        rw [length_completedLeaves, length_completedLeaves] at lengths
        exact Nat.pow_right_injective le_rfl lengths
      exact top_eq_of_positions hashPair zero _ firstNonempty secondNonempty rfl sameHeight.symm
        ((completedLeaves_eq_iff zero sameHeight).mp same)
  refine ⟨characterization, ?_⟩
  intro same sameLength
  have completed := congrArg (List.take first.length) (characterization.mp same)
  rw [take_completedLeaves, sameLength, take_completedLeaves] at completed
  exact completed

/-- The roots of three leaves and of the same leaves with the last one repeated are
equal, and so are the completed trees. -/
theorem merkle_root_binds_three :
    completedLeaves (.leaf 0) [SymbolicDigest.leaf 1, .leaf 2, .leaf 3] =
        completedLeaves (.leaf 0) [.leaf 1, .leaf 2, .leaf 3, .leaf 3] ↔
      (fromLeaves SymbolicDigest.pair (.leaf 0) [.leaf 1, .leaf 2, .leaf 3]).root (.leaf 0) =
        (fromLeaves SymbolicDigest.pair (.leaf 0) [.leaf 1, .leaf 2, .leaf 3, .leaf 3]).root
          (.leaf 0) :=
  (merkle_root_binds pair (.leaf 0) SymbolicDigest.IsLeaf
    (fun _ _ _ _ same => pair.inj same) (fun _ _ absurd => absurd)
    [.leaf 1, .leaf 2, .leaf 3] [.leaf 1, .leaf 2, .leaf 3, .leaf 3] (cons_ne_nil _ _)
    (cons_ne_nil _ _) (by simp [SymbolicDigest.IsLeaf])
    (by simp [SymbolicDigest.IsLeaf])).1.symm

/-- With an injective pair hash whose values are never leaves, three leaves and the same
leaves with the last one repeated have one root. -/
theorem merkle_root_hides_length :
    Function.Injective2 SymbolicDigest.pair ∧
      (∀ left right, ¬ (SymbolicDigest.pair left right).IsLeaf) ∧
      let first : List SymbolicDigest := [.leaf 1, .leaf 2, .leaf 3]
      let second : List SymbolicDigest := [.leaf 1, .leaf 2, .leaf 3, .leaf 3]
      (∀ value ∈ first, value.IsLeaf) ∧ (∀ value ∈ second, value.IsLeaf) ∧
      (fromLeaves pair (.leaf 0) first).root (.leaf 0) =
        (fromLeaves pair (.leaf 0) second).root (.leaf 0) ∧
      first ≠ second := by
  refine ⟨fun _ _ _ _ same => pair.inj same, fun _ _ absurd => absurd, ?_⟩
  intro first second
  refine ⟨by simp [first, SymbolicDigest.IsLeaf], by simp [second, SymbolicDigest.IsLeaf], ?_,
    by decide⟩
  rw [root_fromLeaves, root_fromLeaves]
  apply top_eq_of_positions pair _ 2 (cons_ne_nil _ _) (cons_ne_nil _ _)
    (by decide) (by decide)
  intro bits length
  match bits, length with
  | [low, high], _ => cases low <;> cases high <;> rfl

end Warp.Format
