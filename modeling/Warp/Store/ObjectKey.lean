import Mathlib.Algebra.GroupWithZero.Nat
import Mathlib.Data.List.Infix

/-! # Object keys

A key names a bucket and a path in it. Both are checked when a key is made: a bucket name is a
short lowercase name, and the path must not contain two dots in a row
(`ObjectKey.new`).
-/

namespace Warp.Store

abbrev Text := List Char

def Text.len (text : Text) : ℕ := (text.map Char.utf8Size).sum

inductive KeyError where
  | invalidBucketName (message : String)
  | invalidKey (message : String)
  deriving DecidableEq

def isBucketChar (character : Char) : Bool :=
  ('a' ≤ character ∧ character ≤ 'z') ∨ ('0' ≤ character ∧ character ≤ '9') ∨
    character = '-' ∨ character = '.'

def validateBucket (bucket : Text) : Except KeyError Unit :=
  if bucket.len < 3 ∨ 63 < bucket.len then
    .error (.invalidBucketName "bucket name must be 3-63 characters")
  else if ¬ bucket.all isBucketChar then
    .error (.invalidBucketName
      "bucket name must contain only lowercase letters, numbers, hyphens, and periods")
  else if bucket.head? = some '-' ∨ bucket.getLast? = some '-' then
    .error (.invalidBucketName "bucket name cannot start or end with a hyphen")
  else if bucket.head? = some '.' ∨ bucket.getLast? = some '.' then
    .error (.invalidBucketName "bucket name cannot start or end with a period")
  else if "..".toList <:+: bucket then
    .error (.invalidBucketName "bucket name cannot contain consecutive periods")
  else .ok ()

def validateKey (key : Text) : Except KeyError Unit :=
  if key = [] ∨ 1024 < key.len then .error (.invalidKey "key must be 1-1024 characters")
  else if '\x00' ∈ key then .error (.invalidKey "key cannot contain null bytes")
  -- Prevent path traversal.
  else if "..".toList <:+: key then .error (.invalidKey "key cannot contain '..'")
  else .ok ()

structure ObjectKey where
  bucket : Text
  key : Text
  bucketValid : validateBucket bucket = .ok ()
  keyValid : validateKey key = .ok ()
  deriving DecidableEq

variable {bucket : Text} {key : Text}

namespace ObjectKey

def new (bucket key : Text) : Except KeyError ObjectKey :=
  match bucketValid : validateBucket bucket with
  | .error failure => .error failure
  | .ok () =>
    match keyValid : validateKey key with
    | .error failure => .error failure
    | .ok () => .ok ⟨bucket, key, bucketValid, keyValid⟩

/-- The text of a key, as `Display` writes it. -/
def toText (key : ObjectKey) : Text := key.bucket ++ '/' :: key.key

theorem prefix_toText (key : ObjectKey) : key.bucket ++ ['/'] <+: key.toText :=
  ⟨key.key, List.append_assoc _ _ _⟩

theorem new_eq_ok_iff {made : ObjectKey} :
    new bucket key = .ok made ↔ made.bucket = bucket ∧ made.key = key := by
  constructor
  · intro succeeded
    unfold new at succeeded
    split at succeeded
    · cases succeeded
    · split at succeeded
      · cases succeeded
      · cases succeeded
        exact ⟨rfl, rfl⟩
  · rintro ⟨rfl, rfl⟩
    unfold new
    split
    · next failed => cases failed.symm.trans made.bucketValid
    · split
      · next failed => cases failed.symm.trans made.keyValid
      · rfl

end ObjectKey

theorem bucket_cases (valid : validateBucket bucket = .ok ()) :
    3 ≤ bucket.len ∧ (∀ character ∈ bucket, isBucketChar character = true) ∧
      bucket.head? ≠ some '.' := by
  unfold validateBucket at valid
  split_ifs at valid with length characters hyphens periods dots
  exact ⟨by omega, List.all_eq_true.mp characters,
    fun dotted => periods (.inl dotted)⟩

theorem key_cases (valid : validateKey key = .ok ()) :
    key ≠ [] ∧ ¬ "..".toList <:+: key := by
  unfold validateKey at valid
  split_ifs at valid with length null dots
  exact ⟨fun empty => length (.inl empty), dots⟩

/-- No part of the path of a bucket is empty, a dot or several directories. -/
theorem slash_not_mem_bucket (valid : validateBucket bucket = .ok ()) :
    '/' ∉ bucket := by
  intro inside
  exact absurd ((bucket_cases valid).2.1 '/' inside) (by decide)

end Warp.Store
