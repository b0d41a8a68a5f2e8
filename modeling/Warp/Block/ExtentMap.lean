import Warp.Foundation.OrderedIndex
import Warp.Foundation.Run

/-! # Extent maps

An extent map takes ranges of a volume to ranges of stored objects. Its extents stay tidy over every
run (`ExtentMap.tidy_after`), so that a lookup finds the object byte of an offset whenever some
extent covers it (`ExtentMap.Tidy.resolve_eq_some_iff`). Inserting drops every extent it overlaps as
a whole: the other offsets keep their object bytes if and only if extents that are not dropped cover
them (`ExtentMap.insert_keeps_others_iff`).
-/

namespace Warp.Block

open List OrderedIndex

structure ExtentFlags where
  bits : UInt32
deriving DecidableEq

namespace ExtentFlags

def hole : ExtentFlags := ⟨0x01⟩

def shared : ExtentFlags := ⟨0x02⟩

def isHole (flags : ExtentFlags) : Bool := flags.bits &&& hole.bits != 0

def isShared (flags : ExtentFlags) : Bool := flags.bits &&& shared.bits != 0

def setShared (flags : ExtentFlags) : ExtentFlags := ⟨flags.bits ||| shared.bits⟩

theorem isShared_setShared (flags : ExtentFlags) : flags.setShared.isShared = true := by
  have kept : (flags.bits ||| 2) &&& 2 = 2 := by
    apply UInt32.toBitVec_inj.mp
    ext place
    rw [UInt32.toBitVec_and, UInt32.toBitVec_or, BitVec.getElem_and, BitVec.getElem_or]
    cases (UInt32.toBitVec 2)[place]
    · exact Bool.and_false _
    · rw [Bool.or_true, Bool.and_true]
  simp [setShared, isShared, shared, kept]

end ExtentFlags

structure BlockExtent where
  offset : ℕ
  length : ℕ
  objectKey : String
  objectOffset : ℕ
  flags : ExtentFlags
deriving DecidableEq

variable {offset : ℕ} {start stop : ℕ}

namespace BlockExtent

def new (offset length : ℕ) (objectKey : String) (objectOffset : ℕ) : BlockExtent :=
  ⟨offset, length, objectKey, objectOffset, ⟨0⟩⟩

section
variable (extent : BlockExtent)

def isHole : Bool := extent.flags.isHole

def isShared : Bool := extent.flags.isShared

def endOffset : ℕ := extent.offset + extent.length

def contains (offset : ℕ) : Bool :=
  offset ≥ extent.offset && offset < extent.endOffset

def overlaps (start stop : ℕ) : Bool :=
  extent.offset < stop && extent.endOffset > start

def byteAt (offset : ℕ) : String × ℕ :=
  (extent.objectKey, extent.objectOffset + (offset - extent.offset))

def share : BlockExtent :=
  { extent with flags := extent.flags.setShared }

end

/-- What is left of an overlapping extent when a range is removed: the part before the range
and the part after it. -/
def remainders (start stop : ℕ) (extent : BlockExtent) : List BlockExtent :=
  (if extent.offset < start then [{ extent with length := start - extent.offset }] else []) ++
  if extent.endOffset > stop then
    [{ extent with
        offset := stop
        objectOffset := extent.objectOffset + (stop - extent.offset)
        length := extent.endOffset - stop }]
  else []

@[simp] theorem contains_iff {extent : BlockExtent} :
    extent.contains offset = true ↔ extent.offset ≤ offset ∧ offset < extent.endOffset := by
  simp [contains]

@[simp] theorem overlaps_iff {extent : BlockExtent} :
    extent.overlaps start stop = true ↔ extent.offset < stop ∧ start < extent.endOffset := by
  simp [overlaps]

theorem offset_le_endOffset (extent : BlockExtent) : extent.offset ≤ extent.endOffset :=
  Nat.le_add_right _ _

variable {start stop : ℕ} {extent part : BlockExtent}

variable (member : part ∈ extent.remainders start stop)
include member

/-- A remainder is the part before the range or the part after it. -/
theorem mem_remainders :
    (extent.offset < start ∧ part = { extent with length := start - extent.offset }) ∨
      stop < extent.endOffset ∧ part = { extent with
        offset := stop
        objectOffset := extent.objectOffset + (stop - extent.offset)
        length := extent.endOffset - stop } := by
  rcases mem_append.mp member with before | after
  · exact .inl ((mem_ite_nil_right.mp before).imp_right mem_singleton.mp)
  · exact .inr ((mem_ite_nil_right.mp after).imp_right mem_singleton.mp)

theorem endpoints_of_mem_remainders :
    part.offset = extent.offset ∧ part.endOffset = start ∨
      part.offset = stop ∧ part.endOffset = extent.endOffset := by
  rcases mem_remainders member with ⟨early, rfl⟩ | ⟨late, rfl⟩
  · exact .inl ⟨rfl, Nat.add_sub_cancel' early.le⟩
  · exact .inr ⟨rfl, Nat.add_sub_cancel' late.le⟩

theorem flags_of_mem_remainders : part.flags = extent.flags := by
  rcases mem_remainders member with ⟨-, rfl⟩ | ⟨-, rfl⟩
  · rfl
  · rfl

theorem contains_of_mem_remainders (overlapping : extent.overlaps start stop = true)
    (covered : part.contains offset = true) : extent.contains offset = true := by
  rw [overlaps_iff] at overlapping
  rw [contains_iff] at covered ⊢
  rcases endpoints_of_mem_remainders member with ⟨first, last⟩ | ⟨first, last⟩
  · omega
  · omega

theorem byteAt_of_mem_remainders (overlapping : extent.overlaps start stop = true)
    (covered : part.contains offset = true) : part.byteAt offset = extent.byteAt offset := by
  rw [overlaps_iff] at overlapping
  rw [contains_iff] at covered
  rcases mem_remainders member with ⟨-, rfl⟩ | ⟨-, rfl⟩
  · rfl
  · -- The object offset moves by as much as the start offset does.
    have moved : stop - extent.offset + (offset - stop) = offset - extent.offset := by
      have late : stop ≤ offset := covered.1
      omega
    simp only [byteAt, Nat.add_assoc, moved]

end BlockExtent

open BlockExtent (endpoints_of_mem_remainders overlaps_iff share)

structure ExtentMap where
  extents : OrderedIndex BlockExtent.offset
  size : ℕ
  allocated : UInt64

namespace ExtentMap

def new (size : ℕ) : ExtentMap := ⟨.empty, size, 0⟩

section
variable (map : ExtentMap)

def iter : List BlockExtent := map.extents.values

/-- The extent that starts last at or before an offset, if it contains the offset. -/
def lookup (offset : ℕ) : Option BlockExtent :=
  match map.extents.floor offset with
  | some extent => if extent.contains offset then some extent else none
  | none => none

def lookupRange (start stop : ℕ) : List BlockExtent :=
  (map.extents.below stop).filter (·.overlaps start stop)

/-- Remove the extent at a start offset and count it out of the allocation. -/
def remove (offset : ℕ) : ExtentMap :=
  match map.extents.find offset with
  | some removed =>
    { map with
      extents := map.extents.erase offset
      allocated :=
        if removed.isHole then map.allocated
        else map.allocated - UInt64.ofNat removed.length }
  | none => map

/-- Put an extent at its start offset and count it into the allocation. -/
def add (extent : BlockExtent) : ExtentMap :=
  { map with
    extents := map.extents.insert extent
    allocated :=
      if extent.isHole then map.allocated else map.allocated + UInt64.ofNat extent.length }

def removeOverlapping (start stop : ℕ) : ExtentMap :=
  ((map.lookupRange start stop).map BlockExtent.offset).foldl remove map

def insert (extent : BlockExtent) : ExtentMap :=
  (map.removeOverlapping extent.offset extent.endOffset).add extent

def removeRange (start stop : ℕ) : ExtentMap :=
  ((map.lookupRange start stop).flatMap (BlockExtent.remainders start stop)).foldl add
    (map.removeOverlapping start stop)

def cloneForSnapshot : ExtentMap :=
  { map with extents := map.extents.map BlockExtent.share fun _ => rfl }

def resolve (offset : ℕ) : Option (String × ℕ) :=
  (map.lookup offset).map (·.byteAt offset)

end

variable {inserted : BlockExtent} (size : ℕ)

section
variable {map : ExtentMap} {extent : BlockExtent}

@[simp] theorem mem_lookupRange :
    extent ∈ map.lookupRange start stop ↔
      extent ∈ map.iter ∧ extent.overlaps start stop = true := by
  simp only [lookupRange, mem_filter, OrderedIndex.mem_below, BlockExtent.overlaps_iff, iter]
  tauto

@[simp] theorem mem_iter_remove :
    extent ∈ (map.remove offset).iter ↔ extent ∈ map.iter ∧ extent.offset ≠ offset := by
  cases found : map.extents.find offset with
  | some removed => simp only [remove, found, iter, OrderedIndex.mem_erase]
  | none =>
    have absent := OrderedIndex.find_eq_none_iff.mp found extent
    simp only [remove, found, iter]
    tauto

theorem mem_iter_add {added extent : BlockExtent} :
    extent ∈ (map.add added).iter ↔
      extent = added ∨ extent ∈ map.iter ∧ extent.offset ≠ added.offset :=
  OrderedIndex.mem_insert

theorem mem_iter_foldl_remove {offsets : List ℕ} :
    extent ∈ (offsets.foldl remove map).iter ↔ extent ∈ map.iter ∧ extent.offset ∉ offsets := by
  induction offsets generalizing map with
  | nil => simp
  | cons offset rest ih =>
    rw [foldl_cons, ih, mem_iter_remove, mem_cons, not_or, and_assoc]

theorem mem_of_mem_foldl_add {added : List BlockExtent}
    (member : extent ∈ (added.foldl add map).iter) : extent ∈ added ∨ extent ∈ map.iter := by
  induction added generalizing map with
  | nil => exact .inr member
  | cons first rest ih =>
    rcases ih member with later | earlier
    · exact .inl (mem_cons_of_mem _ later)
    · rcases mem_iter_add.mp earlier with rfl | ⟨kept, -⟩
      · exact .inl mem_cons_self
      · exact .inr kept

theorem mem_iter_removeOverlapping :
    extent ∈ (map.removeOverlapping start stop).iter ↔
      extent ∈ map.iter ∧ ¬ extent.overlaps start stop = true := by
  rw [removeOverlapping, mem_iter_foldl_remove, mem_map]
  refine and_congr_right fun member => not_congr ⟨?_, fun overlaps => ?_⟩
  · rintro ⟨other, found, same⟩
    rw [mem_lookupRange] at found
    exact eq_of_key_eq found.1 member same ▸ found.2
  · exact ⟨extent, mem_lookupRange.mpr ⟨member, overlaps⟩, rfl⟩

/-- Insertion keeps the extents that do not overlap the new one. -/
theorem mem_iter_insert {extent : BlockExtent} :
    extent ∈ (map.insert inserted).iter ↔ extent = inserted ∨
      (extent ∈ map.iter ∧ ¬ extent.overlaps inserted.offset inserted.endOffset = true) ∧
        extent.offset ≠ inserted.offset := by
  rw [insert, mem_iter_add, mem_iter_removeOverlapping]

/-- Removal keeps the extents that do not overlap the range and adds remainders of the
others. -/
theorem mem_of_mem_removeRange (member : extent ∈ (map.removeRange start stop).iter) :
    (extent ∈ map.iter ∧ ¬ extent.overlaps start stop = true) ∨
      ∃ whole ∈ map.iter, whole.overlaps start stop = true ∧
        extent ∈ whole.remainders start stop := by
  rcases mem_of_mem_foldl_add member with added | kept
  · obtain ⟨whole, found, part⟩ := mem_flatMap.mp added
    rw [mem_lookupRange] at found
    exact .inr ⟨whole, found.1, found.2, part⟩
  · exact .inl (mem_iter_removeOverlapping.mp kept)

theorem mem_of_lookup (found : map.lookup offset = some extent) :
    extent ∈ map.iter ∧ extent.contains offset = true := by
  cases last : map.extents.floor offset with
  | none => simp [lookup, last] at found
  | some latest =>
    obtain ⟨⟨present, -⟩, -⟩ := OrderedIndex.floor_eq_some_iff.mp last
    simp only [lookup, last, Option.ite_none_right_eq_some, Option.some.injEq] at found
    obtain ⟨covered, rfl⟩ := found
    exact ⟨present, covered⟩

end

theorem resolve_cloneForSnapshot (map : ExtentMap) (offset : ℕ) :
    map.cloneForSnapshot.resolve offset = map.resolve offset := by
  have copied : map.cloneForSnapshot.extents.floor offset =
      (map.extents.floor offset).map share :=
    map.extents.floor_map share (fun _ => rfl) offset
  cases last : map.extents.floor offset with
  | none => simp [resolve, lookup, copied, last]
  | some extent =>
    simp only [resolve, lookup, copied, last, Option.map_some]
    change Option.map _ (if extent.contains offset = true then _ else _) = _
    split <;> rfl

/-- Extents that end in the order they start in and agree where they overlap. -/
structure Tidy (map : ExtentMap) : Prop where
  ordered : ∀ first ∈ map.iter, ∀ second ∈ map.iter, first.offset < second.offset →
    first.endOffset ≤ second.endOffset
  agree : ∀ first ∈ map.iter, ∀ second ∈ map.iter, ∀ offset,
    first.contains offset = true → second.contains offset = true →
      first.byteAt offset = second.byteAt offset

theorem tidy_new : (new size).Tidy where
  ordered := by simp [new, iter]
  agree := by simp [new, iter]

variable {map : ExtentMap} {byte : String × ℕ}

theorem Tidy.insert (tidy : map.Tidy) (inserted : BlockExtent) : (map.insert inserted).Tidy where
  ordered := by
    intro first left second right before
    have ending := inserted.offset_le_endOffset
    have firstEnding := first.offset_le_endOffset
    have secondEnding := second.offset_le_endOffset
    rcases mem_iter_insert.mp left with rfl | ⟨⟨leftKept, leftApart⟩, -⟩
    · rcases mem_iter_insert.mp right with rfl | ⟨⟨-, rightApart⟩, -⟩
      · exact le_rfl
      · rw [overlaps_iff] at rightApart
        omega
    · rcases mem_iter_insert.mp right with rfl | ⟨⟨rightKept, -⟩, -⟩
      · rw [overlaps_iff] at leftApart
        omega
      · exact tidy.ordered first leftKept second rightKept before
  agree := by
    intro first left second right offset leftCovers rightCovers
    have covers := leftCovers
    have covered := rightCovers
    rw [BlockExtent.contains_iff] at covers covered
    rcases mem_iter_insert.mp left with rfl | ⟨⟨leftKept, leftApart⟩, -⟩
    · rcases mem_iter_insert.mp right with rfl | ⟨⟨-, rightApart⟩, -⟩
      · rfl
      · rw [overlaps_iff] at rightApart
        omega
    · rcases mem_iter_insert.mp right with rfl | ⟨⟨rightKept, -⟩, -⟩
      · rw [overlaps_iff] at leftApart
        omega
      · exact tidy.agree first leftKept second rightKept offset leftCovers rightCovers

/-- After a removal every extent lies in one that was there before and has its bytes. -/
theorem exists_of_mem_removeRange {extent : BlockExtent}
    (member : extent ∈ (map.removeRange start stop).iter) :
    ∃ whole ∈ map.iter, ∀ offset, extent.contains offset = true →
      whole.contains offset = true ∧ extent.byteAt offset = whole.byteAt offset := by
  rcases mem_of_mem_removeRange member with ⟨kept, -⟩ | ⟨whole, present, overlapping, part⟩
  · exact ⟨extent, kept, fun _ covered => ⟨covered, rfl⟩⟩
  · exact ⟨whole, present, fun _ covered =>
      ⟨BlockExtent.contains_of_mem_remainders part overlapping covered,
        BlockExtent.byteAt_of_mem_remainders part overlapping covered⟩⟩

theorem Tidy.removeRange (tidy : map.Tidy) (start stop : ℕ) :
    (map.removeRange start stop).Tidy where
  ordered := by
    intro first left second right before
    rcases mem_of_mem_removeRange left with
      ⟨leftKept, leftApart⟩ | ⟨leftWhole, leftPresent, leftOverlaps, leftPart⟩
    · rcases mem_of_mem_removeRange right with
        ⟨rightKept, -⟩ | ⟨rightWhole, rightPresent, rightOverlaps, rightPart⟩
      · exact tidy.ordered first leftKept second rightKept before
      · -- A kept extent that starts before a remainder ends before the range.
        have ends := endpoints_of_mem_remainders rightPart
        rw [overlaps_iff] at leftApart rightOverlaps
        omega
    · have leftEnds := endpoints_of_mem_remainders leftPart
      rw [overlaps_iff] at leftOverlaps
      rcases mem_of_mem_removeRange right with
        ⟨rightKept, -⟩ | ⟨rightWhole, rightPresent, rightOverlaps, rightPart⟩
      · have wholeFirst : leftWhole.offset < second.offset := by omega
        have ordered := tidy.ordered leftWhole leftPresent second rightKept wholeFirst
        omega
      · have rightEnds := endpoints_of_mem_remainders rightPart
        rw [overlaps_iff] at rightOverlaps
        omega
  agree := by
    intro first left second right offset leftCovers rightCovers
    obtain ⟨leftWhole, leftPresent, leftSame⟩ := exists_of_mem_removeRange left
    obtain ⟨rightWhole, rightPresent, rightSame⟩ := exists_of_mem_removeRange right
    rw [(leftSame offset leftCovers).2, (rightSame offset rightCovers).2]
    exact tidy.agree leftWhole leftPresent rightWhole rightPresent offset
      (leftSame offset leftCovers).1 (rightSame offset rightCovers).1

/-- In a tidy map an offset resolves to its byte in whichever extent covers it. -/
theorem Tidy.resolve_eq_some_iff (tidy : map.Tidy) :
    map.resolve offset = some byte ↔
      ∃ extent ∈ map.iter, extent.contains offset = true ∧ extent.byteAt offset = byte := by
  constructor
  · intro resolved
    obtain ⟨extent, found, rfl⟩ := Option.map_eq_some_iff.mp resolved
    obtain ⟨member, covered⟩ := mem_of_lookup found
    exact ⟨extent, member, covered, rfl⟩
  · rintro ⟨extent, member, covered, rfl⟩
    have start := (BlockExtent.contains_iff.mp covered).1
    cases last : map.extents.floor offset with
    | none =>
      have late := floor_eq_none_iff.mp last extent member
      omega
    | some latest =>
      obtain ⟨⟨present, early⟩, largest⟩ := floor_eq_some_iff.mp last
      -- The extent that starts last also ends last, so it covers the offset as well.
      have covers : latest.contains offset = true := by
        rw [BlockExtent.contains_iff] at covered ⊢
        rcases (largest extent member start).lt_or_eq with before | same
        · have ends := tidy.ordered extent member latest present before
          omega
        · rw [← eq_of_key_eq member present same]
          exact covered
      simp only [resolve, lookup, last, covers, if_true, Option.map_some]
      exact congrArg some (tidy.agree latest present extent member offset covers covered)

inductive Call where
  | insert (extent : BlockExtent)
  | removeRange (start stop : ℕ)

def step (map : ExtentMap) : Call → ExtentMap
  | .insert extent => map.insert extent
  | .removeRange start stop => map.removeRange start stop

theorem tidy_step (map : ExtentMap) (call : Call) (tidy : map.Tidy) : (map.step call).Tidy := by
  cases call with
  | insert extent => exact tidy.insert extent
  | removeRange start stop => exact tidy.removeRange start stop

theorem tidy_after (calls : List Call) : (Run.after step (new size) calls).Tidy :=
  Run.invariant_of_step Tidy tidy_step (tidy_new size) calls

theorem lookup_insert_of_contains (map : ExtentMap) (inside : inserted.contains offset = true) :
    (map.insert inserted).lookup offset = some inserted := by
  have bounds := BlockExtent.contains_iff.mp inside
  have last : (map.insert inserted).extents.floor offset = some inserted := by
    refine floor_eq_some_iff.mpr ⟨⟨mem_iter_insert.mpr (.inl rfl), bounds.1⟩, ?_⟩
    intro other member early
    rcases mem_iter_insert.mp member with rfl | ⟨⟨-, apart⟩, -⟩
    · exact le_rfl
    · have ending := other.offset_le_endOffset
      rw [overlaps_iff] at apart
      omega
  simp only [lookup, last, inside, if_true]

/-- Outside its range an inserted extent leaves the bytes of the extents it does not
overlap. -/
theorem Tidy.resolve_insert_eq_some_iff (tidy : map.Tidy) (positive : 0 < inserted.length)
    (outside : ¬ inserted.contains offset = true) :
    (map.insert inserted).resolve offset = some byte ↔
      ∃ extent ∈ map.iter, ¬ extent.overlaps inserted.offset inserted.endOffset = true ∧
        extent.contains offset = true ∧ extent.byteAt offset = byte := by
  rw [(tidy.insert inserted).resolve_eq_some_iff]
  constructor
  · rintro ⟨extent, member, covered, found⟩
    rcases mem_iter_insert.mp member with rfl | ⟨⟨kept, apart⟩, -⟩
    · exact absurd covered outside
    · exact ⟨extent, kept, apart, covered, found⟩
  · rintro ⟨extent, kept, apart, covered, found⟩
    -- An extent with the same start that covers an offset would overlap the inserted one.
    have elsewhere : extent.offset ≠ inserted.offset := by
      have longer : inserted.offset < inserted.endOffset := Nat.lt_add_of_pos_right positive
      rw [overlaps_iff] at apart
      rw [BlockExtent.contains_iff] at covered outside
      omega
    exact ⟨extent, mem_iter_insert.mpr (.inr ⟨⟨kept, apart⟩, elsewhere⟩), covered, found⟩

/-- Every offset of the extents that an insertion drops lies in its range or in an extent
that stays. -/
def DropsCovered (map : ExtentMap) (inserted : BlockExtent) : Prop :=
  ∀ dropped ∈ map.iter, dropped.overlaps inserted.offset inserted.endOffset = true →
    ∀ offset, dropped.contains offset = true → ¬ inserted.contains offset = true →
      ∃ kept ∈ map.iter, ¬ kept.overlaps inserted.offset inserted.endOffset = true ∧
        kept.contains offset = true

theorem Tidy.resolve_insert_iff (tidy : map.Tidy) (positive : 0 < inserted.length) :
    (∀ offset, ¬ inserted.contains offset = true →
        (map.insert inserted).resolve offset = map.resolve offset) ↔
      map.DropsCovered inserted := by
  constructor
  · intro same dropped member _ offset covered outside
    have before : map.resolve offset = some (dropped.byteAt offset) :=
      tidy.resolve_eq_some_iff.mpr ⟨dropped, member, covered, rfl⟩
    rw [← same offset outside, tidy.resolve_insert_eq_some_iff positive outside] at before
    obtain ⟨kept, present, apart, covers, -⟩ := before
    exact ⟨kept, present, apart, covers⟩
  · intro covered offset outside
    refine Option.ext fun byte => ?_
    rw [tidy.resolve_insert_eq_some_iff positive outside, tidy.resolve_eq_some_iff]
    constructor
    · rintro ⟨extent, member, -, covers, found⟩
      exact ⟨extent, member, covers, found⟩
    · rintro ⟨extent, member, covers, found⟩
      by_cases overlapping : extent.overlaps inserted.offset inserted.endOffset = true
      · obtain ⟨kept, present, apart, keeps⟩ :=
          covered extent member overlapping offset covers outside
        have agreed := tidy.agree kept present extent member offset keeps covers
        exact ⟨kept, present, apart, keeps, agreed.trans found⟩
      · exact ⟨extent, member, overlapping, covers, found⟩

/-- An insertion of an extent leaves what all other offsets resolve to, and its own offsets
resolve to it, if and only if every offset of the extents it drops lies in its range or in
an extent that stays. -/
theorem insert_keeps_others_iff (size : ℕ) (calls : List Call) (inserted : BlockExtent)
    (positive : 0 < inserted.length) :
    let map := Run.after step (new size) calls
    ((∀ offset, ¬ inserted.contains offset = true →
        (map.insert inserted).resolve offset = map.resolve offset) ∧
      ∀ offset, inserted.contains offset = true →
        (map.insert inserted).lookup offset = some inserted) ↔
      map.DropsCovered inserted := by
  intro map
  have outside := (tidy_after size calls).resolve_insert_iff positive
  exact ⟨fun keeps => outside.mp keeps.1, fun covered =>
    ⟨outside.mpr covered, fun _ inside => map.lookup_insert_of_contains inside⟩⟩

/-- An extent over a whole smaller one leaves its other neighbour alone. -/
theorem insert_keeps_others_iff_swallowed :
    let map := Run.after step (new 16384)
      [.insert (.new 0 4096 "obj1" 0), .insert (.new 8192 4096 "obj2" 0)]
    let inserted := BlockExtent.new 0 8192 "obj3" 0
    0 < inserted.length ∧
      ((∀ offset, ¬ inserted.contains offset = true →
        (map.insert inserted).resolve offset = map.resolve offset) ∧
      ∀ offset, inserted.contains offset = true →
        (map.insert inserted).lookup offset = some inserted) := by
  intro map inserted
  have positive : 0 < inserted.length := by decide
  refine ⟨positive, (insert_keeps_others_iff 16384 _ inserted positive).mpr ?_⟩
  intro dropped member overlapping offset covered outside
  have present : dropped ∈ [BlockExtent.new 0 4096 "obj1" 0, .new 8192 4096 "obj2" 0] := member
  rw [BlockExtent.contains_iff] at covered outside
  rcases mem_pair.mp present with rfl | rfl
  · have below : offset < 4096 := covered.2
    exact absurd ⟨Nat.zero_le offset, below.trans (by decide)⟩ outside
  · exact absurd overlapping (by decide)

/-- An extent over the second half of a larger one also takes the first half away. -/
theorem insert_drops_first_half :
    let map := Run.after step (new 16384) [.insert (.new 0 8192 "obj1" 0)]
    let inserted := BlockExtent.new 4096 4096 "obj2" 0
    inserted.contains 0 = false ∧ map.resolve 0 = some ("obj1", 0) ∧
      (map.insert inserted).resolve 0 = none := by
  decide

end ExtentMap

end Warp.Block
