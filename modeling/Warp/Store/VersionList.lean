import Mathlib.Data.List.Induction
import Mathlib.Data.Nat.Notation

/-! # Versions of an object

A list of versions is asked for the latest one by a time. Delete markers are passed over, so that
a deleted version is given (`VersionList.atTime_correct_iff`).
-/

namespace Warp.Store

open List

structure Version (VersionId : Type) where
  id : VersionId
  createdAt : ℕ
  isLatest : Bool
  isDeleteMarker : Bool
  previous : Option VersionId
  deriving DecidableEq

/-- What a version is added with. The list itself keeps the other two fields. -/
def Version.content {VersionId : Type} (version : Version VersionId) : VersionId × ℕ × Bool :=
  (version.id, version.createdAt, version.isDeleteMarker)

/-- All versions, newest first. -/
abbrev VersionList (VersionId : Type) := List (Version VersionId)

namespace VersionList
variable {VersionId : Type}

/-- A new version is put in front, with the version before it as the previous one. -/
def add : VersionList VersionId → Version VersionId → VersionList VersionId
  | [], version => [version]
  | current :: rest, version => { version with previous := some current.id } ::
      { current with isLatest := false } :: rest

/-- The newest version. -/
def latest (versions : VersionList VersionId) : Option (Version VersionId) := versions.head?

/-- The newest version that is old enough and no delete marker. -/
def atTime (versions : VersionList VersionId) (timestamp : ℕ) : Option (Version VersionId) :=
  versions.find? fun version => version.createdAt ≤ timestamp && !version.isDeleteMarker

/-- What had been added by a time, oldest first. -/
def past (history : List (Version VersionId)) (timestamp : ℕ) : List (Version VersionId) :=
  history.takeWhile (·.createdAt ≤ timestamp)

/-- The list holds what was added to it, newest first. -/
theorem map_content_foldl_add (history : List (Version VersionId)) :
    (history.foldl add []).map Version.content = (history.map Version.content).reverse := by
  induction history using List.reverseRecOn with
  | nil => rfl
  | append_singleton history version ih =>
    rw [foldl_append, map_append, reverse_append, ← ih]
    cases history.foldl add [] <;> rfl

/-- With creation times in order, the versions old enough are those added by the time. -/
theorem filter_eq_past {history : List (Version VersionId)}
    (ordered : history.Pairwise (·.createdAt ≤ ·.createdAt)) (timestamp : ℕ) :
    history.filter (·.createdAt ≤ timestamp) = past history timestamp := by
  induction ordered with
  | nil => rfl
  | @cons version rest later _ ih =>
    by_cases old : version.createdAt ≤ timestamp
    · simpa [past, old] using ih
    · have none_ : ∀ other ∈ rest, ¬ other.createdAt ≤ timestamp := fun other member soon =>
        old (Nat.le_trans (later other member) soon)
      simpa [past, old] using none_

/-- The lookup sees the ordinary versions added by the time, newest first. -/
theorem map_content_atTime {history : List (Version VersionId)}
    (ordered : history.Pairwise (·.createdAt ≤ ·.createdAt)) (timestamp : ℕ) :
    (atTime (history.foldl add []) timestamp).map Version.content =
      (((past history timestamp).map Version.content).reverse).find? (!·.2.2) := by
  have seen : (atTime (history.foldl add []) timestamp).map Version.content =
      ((history.foldl add []).map Version.content).find? (fun added =>
        added.2.1 ≤ timestamp && !added.2.2) := by
    rw [find?_map]
    rfl
  have old : (history.map Version.content).reverse.filter (·.2.1 ≤ timestamp) =
      ((past history timestamp).map Version.content).reverse := by
    rw [filter_reverse, filter_map, ← filter_eq_past ordered]
    rfl
  rw [seen, map_content_foldl_add, ← old, find?_filter]
  simp

/-- **Time travel agrees with history** exactly if the last entry added by the time is a delete
marker only where all entries by then are: the lookup gives the latest version of the list as it
was at that time if this is an ordinary version, and nothing otherwise. -/
theorem atTime_correct_iff {history : List (Version VersionId)}
    (ordered : history.Pairwise (·.createdAt ≤ ·.createdAt)) (timestamp : ℕ) :
    (atTime (history.foldl add []) timestamp).map Version.content =
        ((latest ((past history timestamp).foldl add [])).map Version.content).filter (!·.2.2) ↔
      ∀ last ∈ (past history timestamp).getLast?, last.isDeleteMarker = true →
        ∀ version ∈ past history timestamp, version.isDeleteMarker = true := by
  rw [map_content_atTime ordered, latest, ← head?_map, map_content_foldl_add]
  cases entries : (past history timestamp) using List.reverseRecOn with
  | nil => simp
  | append_singleton earlier last =>
    cases marked : last.isDeleteMarker <;>
      simp [Version.content, Option.filter, marked, or_imp, forall_and]

/-- The lookup is right after a deletion that a new version follows. -/
theorem atTime_correct_iff_restored :
    let history : List (Version ℕ) :=
      [⟨1, 1, true, false, none⟩, ⟨2, 4, true, true, none⟩, ⟨3, 4, true, false, none⟩]
    history.Pairwise (·.createdAt ≤ ·.createdAt) ∧
      (atTime (history.foldl add []) 5).map Version.content =
        ((latest ((past history 5).foldl add [])).map Version.content).filter (!·.2.2) :=
  ⟨by decide, (atTime_correct_iff (by decide) 5).mpr (by decide)⟩

/-- A version is given for a time after its deletion. -/
theorem deleted_version_found :
    let history : List (Version ℕ) := [⟨1, 1, true, false, none⟩, ⟨2, 2, true, true, none⟩]
    (atTime (history.foldl add []) 3).map Version.content = some (1, 1, false) ∧
      (latest ((past history 3).foldl add [])).map Version.content = some (2, 2, true) := by
  decide

end VersionList

end Warp.Store
