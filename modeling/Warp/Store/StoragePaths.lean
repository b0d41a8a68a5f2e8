import Mathlib.Data.Nat.Digits.Defs
import Warp.Foundation.LexicalPath
import Warp.Store.ObjectKey

/-! # Paths of stored objects

The local and the erasure backend keep everything about a bucket in a directory of its own. The
paths of an object and of an upload lead into that directory exactly if the key is no absolute
path and the upload ID, followed from the directory of uploads, does not climb out of the
directory of the bucket or end at it (`paths_confined_iff`).
-/

namespace Warp.Store

open LexicalPath List

def paddedDigits (width number : ℕ) : Text :=
  let digits := Nat.toDigits 10 number
  List.replicate (width - digits.length) '0' ++ digits

structure LocalBackend where
  root : Path

namespace LocalBackend

variable (backend : LocalBackend)

def bucketPath (bucket : Text) : Path := join (join backend.root "buckets".toList) bucket

def dataPath (key : ObjectKey) : Path :=
  join (join (backend.bucketPath key.bucket) "data".toList) key.key

def metaPath (key : ObjectKey) : Path :=
  join (join (join (backend.bucketPath key.bucket) ".meta".toList) "objects".toList)
    (key.key ++ ".meta".toList)

def uploadsPath (bucket : Text) : Path := join (backend.bucketPath bucket) ".uploads".toList

def uploadPath (key : ObjectKey) (uploadId : Text) : Path :=
  join (backend.uploadsPath key.bucket) uploadId

def partPath (key : ObjectKey) (uploadId : Text) (partNumber : UInt32) : Path :=
  join (backend.uploadPath key uploadId) ("part.".toList ++ paddedDigits 5 partNumber.toNat)

def uploadMetaPath (key : ObjectKey) (uploadId : Text) : Path :=
  join (backend.uploadPath key uploadId) "meta.msgpack".toList

end LocalBackend

open LocalBackend

structure ErasureBackend where
  root : Path

namespace ErasureBackend

variable (backend : ErasureBackend)

def bucketPath (bucket : Text) : Path := join backend.root bucket

def metaPath (key : ObjectKey) : Path :=
  join (backend.bucketPath key.bucket) (key.key ++ ".meta".toList)

def shardPath (key : ObjectKey) (shardIndex : ℕ) : Path :=
  join (backend.bucketPath key.bucket) (key.key ++ (".shard.".toList ++ Nat.toDigits 10 shardIndex))

end ErasureBackend

/-- A path leads below another one, and not to the same place. -/
def StrictlyInside (outer inner : Path) : Prop :=
  Under (locate (components outer)) (locate (components inner)) ∧
    locate (components inner) ≠ locate (components outer)
  deriving Decidable

/-- All paths of an object and of an upload of it lead into the bucket. -/
structure LocalBackend.Confines (backend : LocalBackend) (key : ObjectKey) (uploadId : Text)
    (partNumber : UInt32) : Prop where
  data : StrictlyInside (backend.bucketPath key.bucket) (backend.dataPath key)
  metadata : StrictlyInside (backend.bucketPath key.bucket) (backend.metaPath key)
  upload : StrictlyInside (backend.bucketPath key.bucket) (backend.uploadPath key uploadId)
  part : StrictlyInside (backend.bucketPath key.bucket) (backend.partPath key uploadId partNumber)
  uploadMeta : StrictlyInside (backend.bucketPath key.bucket) (backend.uploadMetaPath key uploadId)

structure ErasureBackend.Confines (backend : ErasureBackend) (key : ObjectKey)
    (shardIndex : ℕ) : Prop where
  metadata : StrictlyInside (backend.bucketPath key.bucket) (backend.metaPath key)
  shard : StrictlyInside (backend.bucketPath key.bucket) (backend.shardPath key shardIndex)

/-- Followed from the directory of uploads, the upload ID does not climb above the directory of
the bucket, and does not end at it. -/
def UploadIdConfined (uploadId : Text) : Prop :=
  isAbsolute uploadId = false ∧ staysBelow 1 ((parts uploadId).map ofPart) = true ∧
    (walk ⟨false, 0, [".uploads".toList]⟩ ((parts uploadId).map ofPart)).names ≠ []

section Names
variable {base path : Path} (extra : List (List Char))

theorem locate_join_names (relative : isAbsolute path = false)
    (plain : ['.', '.'] ∉ parts path) : locate (components (join base path)) =
      { locate (components base) with
        names := (locate (components base)).names ++ parts path } := by
  rw [locate_join relative, walk_names plain]

theorem strictlyInside_of_names {outer inner : Path}
    (place : locate (components inner) = { locate (components outer) with
      names := (locate (components outer)).names ++ extra }) (named : extra ≠ []) :
    StrictlyInside outer inner := by
  unfold StrictlyInside
  rw [place]
  refine ⟨⟨rfl, rfl, prefix_append _ _⟩, fun same => named ?_⟩
  exact append_right_eq_self.mp (congrArg Location.names same)

theorem not_digit_slash_dot {number : ℕ} {character : Char}
    (member : character ∈ Nat.toDigits 10 number) : character ≠ '/' ∧ character ≠ '.' := by
  have digit := Nat.isDigit_of_mem_toDigits (by decide) le_rfl member
  constructor
  · rintro rfl
    cases digit
  · rintro rfl
    cases digit

theorem locate_join_bucket (parent : Path) {bucket : Text}
    (valid : validateBucket bucket = .ok ()) : locate (components (join parent bucket)) =
      { locate (components parent) with
        names := (locate (components parent)).names ++ [bucket] } := by
  obtain ⟨length, -, first⟩ := bucket_cases valid
  have single := slash_not_mem_bucket valid
  have alone : parts bucket = [bucket] := by
    refine parts_eq_singleton single ?_ ?_
    · rintro rfl
      cases length
    · rintro rfl
      exact first rfl
  have plain : ['.', '.'] ∉ parts bucket := by
    rw [alone, mem_singleton]
    rintro rfl
    exact first rfl
  rw [locate_join_names (isAbsolute_of_not_mem single) plain, alone]

theorem not_inside_both {parent inner other : Path} {first second : Text}
    (firstValid : validateBucket first = .ok ()) (secondValid : validateBucket second = .ok ())
    (different : first ≠ second)
    (same : locate (components inner) = locate (components other))
    (inFirst : StrictlyInside (join parent first) inner)
    (inSecond : StrictlyInside (join parent second) other) : False := by
  have one := inFirst.1.2.2
  have two := inSecond.1.2.2
  rw [locate_join_bucket parent firstValid] at one
  rw [locate_join_bucket parent secondValid, ← same] at two
  have equal := (prefix_of_prefix_length_le one two (by simp)).eq_of_length (by simp)
  exact different (singleton_inj.mp (append_cancel_left equal))

theorem exists_two_buckets (key : ObjectKey) : ∃ first second : ObjectKey,
    first.key = key.key ∧ second.key = key.key ∧ first.bucket ≠ second.bucket :=
  ⟨⟨"aaa".toList, key.key, by decide, key.keyValid⟩,
    ⟨"bbb".toList, key.key, by decide, key.keyValid⟩, rfl, rfl,
    (by decide : "aaa".toList ≠ "bbb".toList)⟩

theorem strictlyInside_join_ending {outer base : Path} {key : ObjectKey} {ending : Text}
    {last : Char}
    (place : locate (components base) = { locate (components outer) with
      names := (locate (components outer)).names ++ extra }) (relative : isAbsolute key.key = false)
    (single : '/' ∉ ending) (ends : ending.getLast? = some last) (noDot : last ≠ '.') :
    StrictlyInside outer (join base (key.key ++ ending)) := by
  obtain ⟨named, plain⟩ := parts_append single ends noDot (key_cases key.keyValid).2
  have absolute : isAbsolute (key.key ++ ending) = false := by
    unfold isAbsolute at relative ⊢
    rwa [head?_append_of_ne_nil _ (key_cases key.keyValid).1]
  apply strictlyInside_of_names (extra ++ parts (key.key ++ ending))
  · rw [locate_join_names absolute plain, place, append_assoc]
  · exact append_ne_nil_of_right_ne_nil _ named

end Names

variable (backend : LocalBackend)

section
variable {key : ObjectKey}

variable (relative : isAbsolute key.key = false)
include relative

theorem LocalBackend.dataPath_inside :
    StrictlyInside (backend.bucketPath key.bucket) (backend.dataPath key) := by
  have plain : ['.', '.'] ∉ parts key.key := fun member =>
    (key_cases key.keyValid).2 (infix_of_mem_parts member)
  apply strictlyInside_of_names ("data".toList :: parts key.key)
  · unfold dataPath
    rw [locate_join_names relative plain, locate_join_names rfl (by decide), append_assoc]
    rfl
  · exact cons_ne_nil _ _

theorem LocalBackend.metaPath_inside :
    StrictlyInside (backend.bucketPath key.bucket) (backend.metaPath key) := by
  refine strictlyInside_join_ending [".meta".toList, "objects".toList] ?_ relative
    (by decide) rfl (by decide : 'a' ≠ '.')
  rw [locate_join_names rfl (by decide), locate_join_names rfl (by decide), append_assoc]
  rfl

theorem ErasureBackend.metaPath_inside (backend : ErasureBackend) :
    StrictlyInside (backend.bucketPath key.bucket) (backend.metaPath key) :=
  strictlyInside_join_ending [] (by rw [append_nil]) relative (by decide) rfl
    (by decide : 'a' ≠ '.')

theorem ErasureBackend.shardPath_inside (backend : ErasureBackend) (shardIndex : ℕ) :
    StrictlyInside (backend.bucketPath key.bucket) (backend.shardPath key shardIndex) := by
  obtain ⟨front, last, digits⟩ :=
    (eq_nil_or_concat (Nat.toDigits 10 shardIndex)).resolve_left Nat.toDigits_ne_nil
  have member : last ∈ Nat.toDigits 10 shardIndex := by
    rw [digits, concat_eq_append]
    exact mem_append_right _ mem_cons_self
  refine strictlyInside_join_ending [] (by rw [append_nil]) relative ?_ ?_
    (not_digit_slash_dot member).2
  · rw [mem_append, not_or]
    exact ⟨by decide, fun slash => (not_digit_slash_dot slash).1 rfl⟩
  · rw [digits, concat_eq_append, ← append_assoc, getLast?_concat]

end

section Uploads
variable {key : ObjectKey} {uploadId : Text}

theorem locate_uploadPath (relative : isAbsolute uploadId = false)
    (stays : staysBelow 1 ((parts uploadId).map ofPart) = true) :
    locate (components (backend.uploadPath key uploadId)) =
      { locate (components (backend.bucketPath key.bucket)) with
        names := (locate (components (backend.bucketPath key.bucket))).names ++
          (walk ⟨false, 0, [".uploads".toList]⟩ ((parts uploadId).map ofPart)).names } := by
  unfold uploadPath uploadsPath
  rw [locate_join relative, locate_join_names rfl (by decide)]
  exact walk_below [".uploads".toList] stays _

section
variable (confined : UploadIdConfined uploadId)
include confined

theorem uploadPath_inside :
    StrictlyInside (backend.bucketPath key.bucket) (backend.uploadPath key uploadId) := by
  obtain ⟨relative, stays, named⟩ := confined
  exact strictlyInside_of_names _ (locate_uploadPath backend relative stays) named

theorem join_uploadPath_inside {file : Text} (single : '/' ∉ file) (plain : ['.', '.'] ∉ parts file) :
    StrictlyInside (backend.bucketPath key.bucket)
      (join (backend.uploadPath key uploadId) file) := by
  obtain ⟨relative, stays, named⟩ := confined
  apply strictlyInside_of_names
    ((walk ⟨false, 0, [".uploads".toList]⟩ ((parts uploadId).map ofPart)).names ++ parts file)
  · rw [locate_join_names (isAbsolute_of_not_mem single) plain,
      locate_uploadPath backend relative stays, append_assoc]
  · exact append_ne_nil_of_left_ne_nil named _

omit confined in
theorem slash_not_mem_partName (partNumber : ℕ) :
    '/' ∉ "part.".toList ++ paddedDigits 5 partNumber := by
  rw [mem_append, not_or, paddedDigits, mem_append, not_or]
  refine ⟨by decide, fun zero => ?_, fun digit => (not_digit_slash_dot digit).1 rfl⟩
  cases eq_of_mem_replicate zero

theorem partPath_inside (partNumber : UInt32) :
    StrictlyInside (backend.bucketPath key.bucket) (backend.partPath key uploadId partNumber) := by
  have single := slash_not_mem_partName partNumber.toNat
  refine join_uploadPath_inside backend confined single fun dots => ?_
  rw [parts_eq_singleton single (by simp) (by simp), mem_singleton] at dots
  simp at dots

end

theorem locate_uploadsPath {bucket : Text} (valid : validateBucket bucket = .ok ()) :
    locate (components (backend.uploadsPath bucket)) =
      { locate (components (join backend.root "buckets".toList)) with
        names := (locate (components (join backend.root "buckets".toList))).names ++
          bucket :: [".uploads".toList] } := by
  unfold uploadsPath bucketPath
  rw [locate_join_names rfl (by decide), locate_join_bucket _ valid, append_assoc]
  rfl

/-- The upload paths of all buckets are in their buckets only if the upload ID stays in each. -/
theorem uploadIdConfined_of_inside
    (inside : ∀ other : ObjectKey, other.key = key.key →
      StrictlyInside (backend.bucketPath other.bucket) (backend.uploadPath other uploadId)) :
    UploadIdConfined uploadId := by
  obtain ⟨first, second, sameFirst, sameSecond, different⟩ := exists_two_buckets key
  have apart : locate (components (backend.uploadPath first uploadId)) ≠
      locate (components (backend.uploadPath second uploadId)) := fun same =>
    not_inside_both first.bucketValid second.bucketValid different same
      (inside first sameFirst) (inside second sameSecond)
  have relative : isAbsolute uploadId = false := by
    cases absolute : isAbsolute uploadId with
    | false => rfl
    | true =>
      refine absurd ?_ apart
      unfold uploadPath
      rw [join, if_pos absolute, join, if_pos absolute]
  have stays : staysBelow 1 ((parts uploadId).map ofPart) = true := by
    cases climbs : staysBelow 1 ((parts uploadId).map ofPart) with
    | true => rfl
    | false =>
      refine absurd ?_ apart
      unfold uploadPath
      rw [locate_join relative, locate_join relative,
        locate_uploadsPath backend first.bucketValid,
        locate_uploadsPath backend second.bucketValid]
      exact walk_eq_of_climbs [".uploads".toList] (rootDir_not_mem_map_ofPart _) climbs _ _ _
  refine ⟨relative, stays, fun ends => (inside first sameFirst).2 ?_⟩
  rw [locate_uploadPath backend relative stays, ends, append_nil]

end Uploads

/-- **Storage paths stay in their bucket** exactly for keys that are no absolute paths and upload
IDs that do not lead out of the bucket's directory or to it. -/
theorem paths_confined_iff (files : LocalBackend) (shards : ErasureBackend) (key : ObjectKey)
    (uploadId : Text) :
    (∀ other : ObjectKey, other.key = key.key →
      (∀ partNumber, files.Confines other uploadId partNumber) ∧
        ∀ shardIndex, shards.Confines other shardIndex) ↔
      isAbsolute key.key = false ∧ UploadIdConfined uploadId := by
  constructor
  · intro inside
    refine ⟨?_, uploadIdConfined_of_inside files fun other same =>
      ((inside other same).1 0).upload⟩
    cases absolute : isAbsolute key.key with
    | false => rfl
    | true =>
      obtain ⟨first, second, sameFirst, sameSecond, different⟩ := exists_two_buckets key
      have replaced (other : ObjectKey) (same : other.key = key.key) :
          files.dataPath other = key.key := by
        unfold dataPath
        rw [same, join, if_pos absolute]
      refine (not_inside_both first.bucketValid second.bucketValid different ?_
        ((inside first sameFirst).1 0).data ((inside second sameSecond).1 0).data).elim
      rw [replaced first sameFirst, replaced second sameSecond]
  · rintro ⟨relative, confined⟩ other same
    rw [← same] at relative
    refine ⟨fun partNumber => ?_, fun shardIndex => ?_⟩
    · exact ⟨files.dataPath_inside relative, files.metaPath_inside relative,
        uploadPath_inside files confined, partPath_inside files confined partNumber,
        join_uploadPath_inside files confined (by decide) (by decide)⟩
    · exact ⟨shards.metaPath_inside relative, shards.shardPath_inside relative shardIndex⟩

/-- An absolute key and an upload ID that climbs lead out of the bucket, and the upload ID of the
parent directory leads to the bucket itself. -/
theorem paths_escape :
    let backend : LocalBackend := ⟨"/srv/warp".toList⟩
    let absolute : ObjectKey := ⟨"logs".toList, "/etc/passwd".toList, by decide, by decide⟩
    let plain : ObjectKey := ⟨"logs".toList, "a.txt".toList, by decide, by decide⟩
    ¬ StrictlyInside (backend.bucketPath absolute.bucket) (backend.dataPath absolute) ∧
      ¬ StrictlyInside (backend.bucketPath plain.bucket)
        (backend.uploadPath plain "../../other".toList) ∧
      ¬ StrictlyInside (backend.bucketPath plain.bucket)
        (backend.uploadPath plain "..".toList) := by
  decide

end Warp.Store
