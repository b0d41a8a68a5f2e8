import Mathlib.Algebra.BigOperators.Group.List.Basic
import Mathlib.Algebra.GroupWithZero.Nat
import Mathlib.Data.List.Pairwise
import Mathlib.Order.Interval.Finset.Nat
import Mathlib.Order.Nat

/-! # Tilings of an address range

Regions tile a range of addresses when they lie in it, do not overlap and together are as large
as the range. A tiling may be reordered (`Tiling.perm`), a region of it may be cut in two
(`Tiling.cut`), and an empty region may be left out (`Tiling.tail`).
-/

/-- Consecutive addresses. -/
structure Region where
  start : ℕ
  count : ℕ
deriving DecidableEq

namespace Region

open List

/-- The first address after the region. -/
def stop (region : Region) : ℕ := region.start + region.count

/-- One region ends before the other one starts. -/
def Apart (first second : Region) : Prop :=
  first.stop ≤ second.start ∨ second.stop ≤ first.start
  deriving Decidable

/-- The number of addresses in disjoint regions. -/
def total (regions : List Region) : ℕ := (regions.map count).sum

theorem Apart.symm {first second : Region} (apart : first.Apart second) : second.Apart first :=
  Or.symm apart

@[simp] theorem total_cons (region : Region) (rest : List Region) :
    total (region :: rest) = region.count + total rest := by
  rw [total, map_cons, sum_cons, total]

@[simp] theorem total_append (first second : List Region) :
    total (first ++ second) = total first + total second := by
  rw [total, map_append, sum_append, total, total]

theorem total_perm {first second : List Region} (same : first.Perm second) :
    total first = total second :=
  (same.map count).sum_eq

end Region

/-- The regions cover the addresses below a limit, each once. -/
structure Tiling (limit : ℕ) (regions : List Region) : Prop where
  apart : regions.Pairwise Region.Apart
  inside : ∀ region ∈ regions, region.stop ≤ limit
  covered : Region.total regions = limit

namespace Tiling

open List

variable {limit : ℕ} {region : Region} {first second rest : List Region}

theorem whole (limit : ℕ) : Tiling limit [⟨0, limit⟩] where
  apart := pairwise_singleton _ _
  inside region member := by
    rw [mem_singleton.mp member]
    exact (Nat.zero_add limit).le
  covered := Nat.add_zero limit

theorem perm (tiling : Tiling limit first) (same : first.Perm second) : Tiling limit second where
  apart := (same.pairwise_iff Region.Apart.symm).mp tiling.apart
  inside region member := tiling.inside region (same.mem_iff.mpr member)
  covered := by
    rw [← Region.total_perm same]
    exact tiling.covered

theorem cut (tiling : Tiling limit (region :: rest)) {count : ℕ} (fits : count ≤ region.count) :
    Tiling limit
      (⟨region.start, count⟩ :: ⟨region.start + count, region.count - count⟩ :: rest) := by
  obtain ⟨apart, inside, covered⟩ := tiling
  obtain ⟨others, apart⟩ := pairwise_cons.mp apart
  obtain ⟨bound, inside⟩ := forall_mem_cons.mp inside
  have stop : region.start + count + (region.count - count) = region.stop := by
    rw [Nat.add_assoc, Nat.add_sub_cancel' fits, Region.stop]
  have below : region.start + count ≤ region.stop := Nat.add_le_add_left fits _
  refine ⟨?_, ?_, ?_⟩
  · refine pairwise_cons.mpr ⟨?_, pairwise_cons.mpr ⟨?_, apart⟩⟩
    · refine forall_mem_cons.mpr ⟨.inl le_rfl, fun other member => ?_⟩
      exact (others other member).imp below.trans id
    · intro other member
      refine (others other member).imp (fun before => ?_) (fun after => ?_)
      · exact stop.trans_le before
      · exact after.trans (Nat.le_add_right _ _)
  · exact forall_mem_cons.mpr ⟨below.trans bound, forall_mem_cons.mpr ⟨stop.trans_le bound, inside⟩⟩
  · simp only [Region.total_cons] at covered ⊢
    rw [← Nat.add_assoc, Nat.add_sub_cancel' fits]
    exact covered

theorem tail (tiling : Tiling limit (region :: rest)) (empty : region.count = 0) :
    Tiling limit rest where
  apart := tiling.apart.of_cons
  inside other member := tiling.inside other (mem_cons_of_mem _ member)
  covered := by
    have covered := tiling.covered
    rwa [Region.total_cons, empty, Nat.zero_add] at covered

end Tiling
