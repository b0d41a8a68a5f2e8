import Mathlib.Algebra.Order.Floor.Div
import Mathlib.Data.List.MinMax
import Mathlib.Data.UInt
import Warp.Foundation.Bytes
import Warp.Foundation.Machine
import Warp.Foundation.Run
import Warp.Foundation.Table
import Warp.Foundation.Tiling
import Warp.Store.ObjectKey

/-! # Object-to-block mapping

Objects are mapped to ranges of logical blocks of NVMe namespaces. As long as every object takes
fewer than `2 ^ 32` blocks, the blocks of different objects are different
(`MapperRun.blocks_not_shared`). Free regions are never merged, so that freed blocks may not be
found again (`MapperRun.freed_space_usable_iff`). The iteration order of the map of namespaces is an
argument.
-/

namespace Warp.Store

open List Region

structure ObjectExtent where
  startLba : ℕ
  blockCount : ℕ
  objectOffset : ℕ
  deriving DecidableEq

def ObjectExtent.endLba (extent : ObjectExtent) : ℕ := extent.startLba + extent.blockCount

def ObjectExtent.overlaps (extent other : ObjectExtent) : Bool :=
  extent.startLba < other.endLba && other.startLba < extent.endLba

structure ObjectLocation where
  targetId : Text
  namespaceId : UInt32
  extents : List ObjectExtent
  size : ℕ
  contentHash : Bytes
  createdAt : ℕ
  modifiedAt : ℕ
  deriving DecidableEq

def ObjectLocation.totalBlocks (location : ObjectLocation) : ℕ :=
  (location.extents.map ObjectExtent.blockCount).sum

structure NamespaceAllocator where
  nsid : UInt32
  targetNqn : Text
  totalBlocks : ℕ
  freeBlocks : ℕ
  freeList : List Region
  deriving DecidableEq

namespace NamespaceAllocator

def new (nsid : UInt32) (targetNqn : Text) (totalBlocks : ℕ) : NamespaceAllocator where
  nsid
  targetNqn
  totalBlocks
  freeBlocks := totalBlocks
  freeList := [⟨0, totalBlocks⟩]

def firstFit (blockCount : ℕ) : List Region → Option (ℕ × List Region)
  | [] => none
  | region :: rest =>
    if blockCount ≤ region.count then
      if region.count = blockCount then some (region.start, rest)
      else some (region.start,
        ⟨(region.start + blockCount) % 2 ^ 64, region.count - blockCount⟩ :: rest)
    else
      match firstFit blockCount rest with
      | none => none
      | some (start, left) => some (start, region :: left)

def allocate (allocator : NamespaceAllocator) (blockCount : ℕ) : Option (ℕ × NamespaceAllocator) :=
  match firstFit blockCount allocator.freeList with
  | none => none
  | some (start, freeList) => some (start, { allocator with
      freeBlocks := (allocator.freeBlocks + (2 ^ 64 - blockCount)) % 2 ^ 64
      freeList })

def free (allocator : NamespaceAllocator) (startLba blockCount : ℕ) : NamespaceAllocator :=
  { allocator with
    freeBlocks := (allocator.freeBlocks + blockCount) % 2 ^ 64
    freeList := (allocator.freeList ++ [Region.mk startLba blockCount]).insertionSort
      fun first second => first.start ≤ second.start }

end NamespaceAllocator

inductive AllocationStrategy where
  | firstFit
  | bestFit
  | roundRobin
  | striped
  deriving DecidableEq

inductive NvmeOfBackendError where
  | namespaceNotFound (nsid : UInt32)
  | allocationFailed (message : String)
  deriving DecidableEq

abbrev NamespaceKey := Text × UInt32

structure ObjectBlockMapper where
  blockSize : ℕ
  strategy : AllocationStrategy
  allocators : Table NamespaceKey NamespaceAllocator
  rrIndex : ℕ

namespace ObjectBlockMapper

def new (blockSize : UInt32) (strategy : AllocationStrategy) : ObjectBlockMapper :=
  ⟨blockSize.toNat, strategy, ∅, 0⟩

variable (mapper : ObjectBlockMapper)

def registerNamespace (targetNqn : Text) (nsid : UInt32) (totalBlocks : UInt64) :
    ObjectBlockMapper :=
  let allocator := NamespaceAllocator.new nsid targetNqn totalBlocks.toNat
  { mapper with allocators := mapper.allocators.insert (targetNqn, nsid) allocator }

/-- Calculate blocks needed for size. A block size of zero panics in the division. -/
def blocksForSize (overflowChecks : Bool) (size : ℕ) : Outcome NvmeOfBackendError ℕ :=
  (Machine.fit overflowChecks 64 (size + mapper.blockSize)).bind fun padded =>
    if mapper.blockSize = 0 then .panic
    else .ok ((padded + (2 ^ 64 - 1)) % 2 ^ 64 / mapper.blockSize)

def values (order : List NamespaceKey) : List (NamespaceKey × NamespaceAllocator) :=
  order.filterMap fun key => (mapper.allocators.lookup key).map (key, ·)

def select (blocksNeeded : ℕ) (values : List (NamespaceKey × NamespaceAllocator)) :
    Option (NamespaceKey × NamespaceAllocator) :=
  let enough (candidate : NamespaceKey × NamespaceAllocator) : Bool :=
    blocksNeeded ≤ candidate.2.freeBlocks
  match mapper.strategy with
  | .firstFit => values.find? enough
  | .bestFit => (values.filter enough).argmin fun candidate => candidate.2.freeBlocks
  | .roundRobin =>
    match values[mapper.rrIndex % values.length]? with
    | none => none
    | some selected => if enough selected then some selected else values.find? enough
  | .striped => values.find? enough

def nextIndex : ℕ :=
  match mapper.strategy with
  | .roundRobin => (mapper.rrIndex + 1) % 2 ^ 64
  | .firstFit | .bestFit | .striped => mapper.rrIndex

def allocate (overflowChecks : Bool) (objectSize : ℕ) (contentHash : Bytes) (now : ℕ)
    (order : List NamespaceKey) :
    Outcome NvmeOfBackendError ObjectLocation × ObjectBlockMapper :=
  match mapper.blocksForSize overflowChecks objectSize with
  | .panic => (.panic, mapper)
  | .error failure => (.error failure, mapper)
  | .ok blocksNeeded =>
    if mapper.allocators.size = 0 then
      (.error (.allocationFailed "No namespaces registered"), mapper)
    else
      let selecting := { mapper with rrIndex := mapper.nextIndex }
      match mapper.select blocksNeeded (mapper.values order) with
      | none => (.error (.allocationFailed "Insufficient space"), selecting)
      | some (key, allocator) =>
        match allocator.allocate blocksNeeded with
        | none => (.error (.allocationFailed "Fragmentation"), selecting)
        | some (startLba, updated) =>
          (.ok
            { targetId := allocator.targetNqn
              namespaceId := allocator.nsid
              -- The extent's field has 32 bits.
              extents := [⟨startLba, blocksNeeded % 2 ^ 32, 0⟩]
              size := objectSize
              contentHash
              createdAt := now
              modifiedAt := now },
            { selecting with allocators := mapper.allocators.insert key updated })

def free (location : ObjectLocation) : Except NvmeOfBackendError Unit × ObjectBlockMapper :=
  match mapper.allocators.lookup (location.targetId, location.namespaceId) with
  | none => (.error (.namespaceNotFound location.namespaceId), mapper)
  | some allocator =>
    let freed := location.extents.foldl
      (fun allocator extent => allocator.free extent.startLba extent.blockCount) allocator
    (.ok (), { mapper with
      allocators := mapper.allocators.insert (location.targetId, location.namespaceId) freed })

end ObjectBlockMapper

/-- A mapper and the locations that have been returned and not freed. -/
structure MapperRun where
  mapper : ObjectBlockMapper
  live : List ObjectLocation

inductive MapperCall where
  | register (targetNqn : Text) (nsid : UInt32) (totalBlocks : UInt64)
  | allocate (objectSize : ℕ) (contentHash : Bytes) (now : ℕ) (order : List NamespaceKey)
  /-- Free the live location at an index. -/
  | free (index : ℕ)

namespace MapperRun

def new (blockSize : UInt32) (strategy : AllocationStrategy) : MapperRun :=
  ⟨.new blockSize strategy, []⟩

def step (overflowChecks : Bool) (state : MapperRun) : MapperCall → MapperRun
  | .register targetNqn nsid totalBlocks =>
    { state with mapper := state.mapper.registerNamespace targetNqn nsid totalBlocks }
  | .allocate objectSize contentHash now order =>
    match state.mapper.allocate overflowChecks objectSize contentHash now order with
    | (.ok location, mapper) => ⟨mapper, location :: state.live⟩
    | (.error _, mapper) => { state with mapper }
    | (.panic, mapper) => { state with mapper }
  | .free index =>
    match state.live[index]? with
    | none => state
    | some location => ⟨(state.mapper.free location).2, state.live.eraseIdx index⟩

end MapperRun

def ObjectLocation.key (location : ObjectLocation) : NamespaceKey :=
  (location.targetId, location.namespaceId)

def ObjectExtent.region (extent : ObjectExtent) : Region := ⟨extent.startLba, extent.blockCount⟩

def extentsIn (key : NamespaceKey) (live : List ObjectLocation) : List ObjectExtent :=
  live.flatMap fun location => if location.key = key then location.extents else []

/-- Every namespace is registered once, and every object takes fewer than `2 ^ 32` blocks. Sums
of sizes fit in 64 bits. -/
def MapperRun.Orderly (state : MapperRun) : MapperCall → Prop
  | .register targetNqn nsid _ => state.mapper.allocators.lookup (targetNqn, nsid) = none
  | .allocate objectSize _ _ _ =>
    objectSize + state.mapper.blockSize < 2 ^ 64 ∧ objectSize ⌈/⌉ state.mapper.blockSize < 2 ^ 32
  | .free _ => True

instance (state : MapperRun) (call : MapperCall) : Decidable (state.Orderly call) := by
  cases call <;> unfold MapperRun.Orderly <;> infer_instance

namespace NamespaceAllocator

/-- The blocks taken by first fit move from the free regions to the taken ones. -/
theorem firstFit_tiling {limit blockCount start : ℕ} (small : limit < 2 ^ 64)
    {free taken left : List Region} (tiling : Tiling limit (free ++ taken))
    (fits : firstFit blockCount free = some (start, left)) :
    Tiling limit (left ++ ⟨start, blockCount⟩ :: taken) := by
  induction free generalizing taken left with
  | nil => cases fits
  | cons region rest ih =>
    rw [firstFit] at fits
    split_ifs at fits with large whole
    · obtain ⟨rfl, rfl⟩ := Prod.mk.inj (Option.some.inj fits)
      have pieces := (tiling.cut large).perm (Perm.swap _ _ _)
      have kept := pieces.tail (Nat.sub_eq_zero_of_le whole.le)
      exact kept.perm perm_middle.symm
    · obtain ⟨rfl, rfl⟩ := Prod.mk.inj (Option.some.inj fits)
      have bound := tiling.inside region mem_cons_self
      have inside : region.start + blockCount < 2 ^ 64 := by
        unfold Region.stop at bound
        omega
      rw [Nat.mod_eq_of_lt inside]
      exact (tiling.cut large).perm ((Perm.swap _ _ _).trans (perm_middle.symm.cons _))
    · cases found : firstFit blockCount rest with
      | none => simp only [found] at fits; cases fits
      | some answer =>
        simp only [found] at fits
        obtain ⟨rfl, rfl⟩ := Prod.mk.inj (Option.some.inj fits)
        have moved := ih (tiling.perm perm_middle.symm) found
        have shuffle : (answer.2 ++ ⟨answer.1, blockCount⟩ :: region :: taken).Perm
            (region :: (answer.2 ++ ⟨answer.1, blockCount⟩ :: taken)) :=
          ((Perm.swap _ _ _).append_left _).trans perm_middle
        exact moved.perm shuffle

/-- The allocator is that of the key, its free regions and the given extents tile the namespace,
and its counter counts the free regions. -/
structure Accounts (key : NamespaceKey) (allocator : NamespaceAllocator)
    (extents : List ObjectExtent) : Prop where
  name : (allocator.targetNqn, allocator.nsid) = key
  small : allocator.totalBlocks < 2 ^ 64
  tiling : Tiling allocator.totalBlocks (allocator.freeList ++ extents.map ObjectExtent.region)
  counter : allocator.freeBlocks = Region.total allocator.freeList

namespace Accounts

variable {key : NamespaceKey} {allocator updated : NamespaceAllocator}
  {extents others : List ObjectExtent}

theorem new (nsid : UInt32) (targetNqn : Text) (totalBlocks : UInt64) :
    Accounts (targetNqn, nsid) (.new nsid targetNqn totalBlocks.toNat) [] where
  name := rfl
  small := totalBlocks.toNat_lt
  tiling := Tiling.whole _
  counter := (Nat.add_zero _).symm

section
variable (accounts : Accounts key allocator extents)
include accounts

theorem perm (same : extents.Perm others) :
    Accounts key allocator others where
  name := accounts.name
  small := accounts.small
  tiling := accounts.tiling.perm ((same.map _).append_left _)
  counter := accounts.counter

theorem total_eq :
    allocator.freeBlocks + Region.total (extents.map ObjectExtent.region) =
      allocator.totalBlocks := by
  rw [accounts.counter, ← total_append]
  exact accounts.tiling.covered

theorem allocate {blockCount start : ℕ}
    (allocated : allocator.allocate blockCount = some (start, updated)) (offset : ℕ) :
    Accounts key updated (⟨start, blockCount, offset⟩ :: extents) := by
  unfold NamespaceAllocator.allocate at allocated
  split at allocated
  · cases allocated
  · rename_i answer position left fits
    obtain ⟨rfl, rfl⟩ := Prod.mk.inj (Option.some.inj allocated)
    have tiling := firstFit_tiling accounts.small accounts.tiling fits
    refine ⟨accounts.name, accounts.small, tiling, ?_⟩
    -- The counter loses what the free regions lose.
    have before := accounts.total_eq
    have after := tiling.covered
    have small := accounts.small
    rw [total_append, total_cons] at after
    dsimp only at after ⊢
    omega

end

theorem free {extent : ObjectExtent} (accounts : Accounts key allocator (extent :: extents)) :
    Accounts key (allocator.free extent.startLba extent.blockCount) extents := by
  have sorted : (allocator.free extent.startLba extent.blockCount).freeList.Perm
      (extent.region :: allocator.freeList) :=
    (perm_insertionSort _ _).trans perm_append_comm
  have tiling : Tiling allocator.totalBlocks
      ((allocator.free extent.startLba extent.blockCount).freeList ++
        extents.map ObjectExtent.region) :=
    accounts.tiling.perm (perm_middle.trans (sorted.symm.append_right _))
  refine ⟨accounts.name, accounts.small, tiling, ?_⟩
  -- The counter gains what the free regions gain.
  have counted := total_perm sorted
  have covered := tiling.covered
  have small := accounts.small
  have counter := accounts.counter
  rw [total_append] at covered
  rw [total_cons] at counted
  change (allocator.freeBlocks + extent.blockCount) % 2 ^ 64 = _
  change _ = extent.blockCount + _ at counted
  omega

theorem freeAll (accounts : Accounts key allocator (extents ++ others)) :
    Accounts key (extents.foldl (fun allocator extent =>
      allocator.free extent.startLba extent.blockCount) allocator) others := by
  induction extents generalizing allocator with
  | nil => exact accounts
  | cons extent rest ih => exact ih (free accounts)

end Accounts

end NamespaceAllocator

variable {key : NamespaceKey}

namespace ObjectBlockMapper

variable {mapper : ObjectBlockMapper} {blocksNeeded : ℕ}

theorem lookup_of_mem_values {order : List NamespaceKey} {allocator : NamespaceAllocator}
    (member : (key, allocator) ∈ mapper.values order) :
    mapper.allocators.lookup key = some allocator := by
  obtain ⟨found, -, entry⟩ := mem_filterMap.mp member
  obtain ⟨value, looked, same⟩ := Option.map_eq_some_iff.mp entry
  obtain ⟨rfl, rfl⟩ := Prod.mk.inj same
  exact looked

theorem mem_of_select {values : List (NamespaceKey × NamespaceAllocator)}
    {selected : NamespaceKey × NamespaceAllocator}
    (selects : mapper.select blocksNeeded values = some selected) : selected ∈ values := by
  unfold select at selects
  dsimp only at selects
  split at selects
  · exact mem_of_find?_eq_some selects
  · exact mem_of_mem_filter (argmin_mem selects)
  · split at selects
    · cases selects
    · rename_i candidate found
      split_ifs at selects with enough
      · cases selects
        exact mem_of_getElem? found
      · exact mem_of_find?_eq_some selects
  · exact mem_of_find?_eq_some selects

/-- An allocation takes blocks from one namespace, or leaves all of them as they are. -/
theorem allocate_cases (overflowChecks : Bool) (objectSize : ℕ) (contentHash : Bytes) (now : ℕ)
    (order : List NamespaceKey) :
    let answer := mapper.allocate overflowChecks objectSize contentHash now order
    answer.2.blockSize = mapper.blockSize ∧
      ((∀ location, answer.1 ≠ .ok location) ∧ answer.2.allocators = mapper.allocators ∨
        ∃ blocksNeeded key allocator startLba updated,
          mapper.blocksForSize overflowChecks objectSize = .ok blocksNeeded ∧
          mapper.allocators.lookup key = some allocator ∧
          allocator.allocate blocksNeeded = some (startLba, updated) ∧
          answer.2.allocators = mapper.allocators.insert key updated ∧
          answer.1 = .ok ⟨allocator.targetNqn, allocator.nsid,
            [⟨startLba, blocksNeeded % 2 ^ 32, 0⟩], objectSize, contentHash, now, now⟩) := by
  unfold allocate
  cases needed : mapper.blocksForSize overflowChecks objectSize with
  | panic =>
    refine ⟨rfl, .inl ⟨?_, rfl⟩⟩
    rintro location ⟨⟩
  | error failure =>
    refine ⟨rfl, .inl ⟨?_, rfl⟩⟩
    rintro location ⟨⟩
  | ok blocksNeeded =>
    dsimp only
    split_ifs with unregistered
    · refine ⟨rfl, .inl ⟨?_, rfl⟩⟩
      rintro location ⟨⟩
    · cases selects : mapper.select blocksNeeded (mapper.values order) with
      | none =>
        refine ⟨rfl, .inl ⟨?_, rfl⟩⟩
        rintro location ⟨⟩
      | some selected =>
        obtain ⟨key, allocator⟩ := selected
        have found := lookup_of_mem_values (mem_of_select selects)
        dsimp only
        cases allocated : allocator.allocate blocksNeeded with
        | none =>
          refine ⟨rfl, .inl ⟨?_, rfl⟩⟩
          rintro location ⟨⟩
        | some answer =>
          exact ⟨rfl, .inr ⟨blocksNeeded, key, allocator, answer.1, answer.2, rfl, found,
            allocated, rfl, rfl⟩⟩

/-- The number of blocks is the quotient rounded up. -/
theorem blocksForSize_of_lt {overflowChecks : Bool} {size : ℕ}
    (fits : size + mapper.blockSize < 2 ^ 64) (positive : mapper.blockSize ≠ 0) :
    mapper.blocksForSize overflowChecks size = .ok (size ⌈/⌉ mapper.blockSize) := by
  have padded : (size + mapper.blockSize + (2 ^ 64 - 1)) % 2 ^ 64 =
      size + mapper.blockSize - 1 := by omega
  rw [blocksForSize, Machine.fit_of_lt fits]
  change (if _ then _ else _) = _
  rw [if_neg positive, padded, Nat.ceilDiv_eq_add_pred_div]

theorem blocksForSize_eq_ok {overflowChecks : Bool} {size : ℕ}
    (fits : size + mapper.blockSize < 2 ^ 64)
    (needed : mapper.blocksForSize overflowChecks size = .ok blocksNeeded) :
    blocksNeeded = size ⌈/⌉ mapper.blockSize := by
  by_cases zero : mapper.blockSize = 0
  · rw [blocksForSize, Machine.fit_of_lt fits] at needed
    change (if _ then _ else _) = _ at needed
    rw [if_pos zero] at needed
    cases needed
  · rw [blocksForSize_of_lt fits zero] at needed
    exact (Outcome.ok.inj needed).symm

end ObjectBlockMapper

section
variable {key : NamespaceKey} {location : ObjectLocation} {live : List ObjectLocation}

theorem extentsIn_cons_of_eq (placed : location.key = key) :
    extentsIn key (location :: live) = location.extents ++ extentsIn key live := by
  rw [extentsIn, flatMap_cons, if_pos placed, extentsIn]

theorem extentsIn_cons_of_ne (elsewhere : location.key ≠ key) :
    extentsIn key (location :: live) = extentsIn key live := by
  rw [extentsIn, flatMap_cons, if_neg elsewhere, nil_append, extentsIn]

theorem extentsIn_eq_nil (others : ∀ location ∈ live, location.key ≠ key) :
    extentsIn key live = [] := by
  rw [extentsIn, flatMap_eq_nil_iff]
  intro location member
  exact if_neg (others location member)

theorem extentsIn_perm {first second : List ObjectLocation} (same : first.Perm second)
    (key : NamespaceKey) : (extentsIn key first).Perm (extentsIn key second) :=
  same.flatMap_right _

end

namespace MapperRun

/-- The accounts of every namespace are right, and every live location is in a namespace and
large enough. -/
structure Sound (state : MapperRun) : Prop where
  accounts : ∀ key allocator, state.mapper.allocators.lookup key = some allocator →
    allocator.Accounts key (extentsIn key state.live)
  registered : ∀ location ∈ state.live, ∃ allocator,
    state.mapper.allocators.lookup location.key = some allocator
  sized : ∀ location ∈ state.live, location.size ⌈/⌉ state.mapper.blockSize ≤ location.totalBlocks

variable {state : MapperRun} {overflowChecks : Bool}

section
variable (sound : state.Sound)
include sound

variable {mapper : ObjectBlockMapper}

theorem Sound.insert {live : List ObjectLocation} {updated : NamespaceAllocator}
    (size : mapper.blockSize = state.mapper.blockSize)
    (stored : mapper.allocators = state.mapper.allocators.insert key updated)
    (accounts : updated.Accounts key (extentsIn key live))
    (others : ∀ other, key ≠ other → (extentsIn other state.live).Perm (extentsIn other live))
    (located : ∀ location ∈ live, location ∈ state.live ∨ location.key = key ∧
      location.size ⌈/⌉ state.mapper.blockSize ≤ location.totalBlocks) :
    Sound ⟨mapper, live⟩ where
  accounts other allocator found := by
    rw [stored] at found
    rcases Table.eq_or_lookup_of_insert found with ⟨rfl, rfl⟩ | ⟨same, found⟩
    · exact accounts
    · exact (sound.accounts other allocator found).perm (others other (Ne.symm same))
  registered location member := by
    rw [stored, Table.lookup_insert_eq]
    split_ifs with same
    · exact ⟨updated, rfl⟩
    · rcases located location member with before | ⟨placed, -⟩
      · exact sound.registered location before
      · exact absurd placed same
  sized location member := by
    rw [size]
    rcases located location member with before | ⟨-, large⟩
    · exact sound.sized location before
    · exact large

theorem Sound.congr (size : mapper.blockSize = state.mapper.blockSize)
    (same : mapper.allocators = state.mapper.allocators) : Sound { state with mapper } where
  accounts := by
    rw [same]
    exact sound.accounts
  registered := by
    rw [same]
    exact sound.registered
  sized := by
    rw [size]
    exact sound.sized

theorem Sound.register {targetNqn : Text} {nsid : UInt32} (totalBlocks : UInt64)
    (unregistered : state.mapper.allocators.lookup (targetNqn, nsid) = none) :
    (step overflowChecks state (.register targetNqn nsid totalBlocks)).Sound := by
  have unused : extentsIn (targetNqn, nsid) state.live = [] := by
    apply extentsIn_eq_nil
    intro location member same
    obtain ⟨allocator, found⟩ := sound.registered location member
    rw [same, unregistered] at found
    cases found
  refine sound.insert rfl rfl ?_ (fun _ _ => .refl _) fun _ => .inl
  rw [unused]
  exact .new nsid targetNqn totalBlocks

theorem Sound.allocate {objectSize : ℕ} (contentHash : Bytes) (now : ℕ) (order : List NamespaceKey)
    (fits : objectSize + state.mapper.blockSize < 2 ^ 64)
    (narrow : objectSize ⌈/⌉ state.mapper.blockSize < 2 ^ 32) :
    (step overflowChecks state (.allocate objectSize contentHash now order)).Sound := by
  have cases := state.mapper.allocate_cases overflowChecks objectSize contentHash now order
  rcases answer : state.mapper.allocate overflowChecks objectSize contentHash now order with
    ⟨result, mapper⟩
  simp only [answer] at cases
  obtain ⟨size, ⟨failed, kept⟩ | ⟨blocksNeeded, key, allocator, startLba, updated, needed, found,
    allocated, stored, rfl⟩⟩ := cases
  · cases result with
    | ok location => exact absurd rfl (failed location)
    | error failure =>
      simp only [step, answer]
      exact sound.congr size kept
    | panic =>
      simp only [step, answer]
      exact sound.congr size kept
  · simp only [step, answer]
    obtain rfl := ObjectBlockMapper.blocksForSize_eq_ok fits needed
    -- The narrowing to 32 bits changes nothing.
    rw [Nat.mod_eq_of_lt narrow]
    have accounts := sound.accounts key allocator found
    have placed : ObjectLocation.key ⟨allocator.targetNqn, allocator.nsid,
      [⟨startLba, objectSize ⌈/⌉ state.mapper.blockSize, 0⟩], objectSize, contentHash, now, now⟩ =
        key := accounts.name
    refine sound.insert size stored ?_ ?_ ?_
    · rw [extentsIn_cons_of_eq placed]
      exact accounts.allocate allocated 0
    · intro other different
      rw [extentsIn_cons_of_ne (placed.trans_ne different)]
    · refine forall_mem_cons.mpr ⟨.inr ⟨placed, ?_⟩, fun _ => .inl⟩
      exact (Nat.add_zero _).ge

theorem Sound.free (index : ℕ) : (step overflowChecks state (.free index)).Sound := by
  cases found : state.live[index]? with
  | none =>
    simp only [step, found]
    exact sound
  | some location =>
    simp only [step, found]
    obtain ⟨bound, rfl⟩ := List.getElem?_eq_some_iff.mp found
    have taken := (getElem_cons_eraseIdx_perm bound).symm
    obtain ⟨allocator, looked⟩ := sound.registered _ (getElem_mem bound)
    have accounts := sound.accounts _ allocator looked
    have moved := extentsIn_perm taken state.live[index].key
    rw [extentsIn_cons_of_eq rfl] at moved
    unfold ObjectBlockMapper.free
    change state.mapper.allocators.lookup (_, _) = _ at looked
    simp only [looked]
    refine sound.insert rfl rfl ?_ ?_ ?_
    · exact (accounts.perm moved).freeAll
    · intro other different
      have same := extentsIn_perm taken other
      rwa [extentsIn_cons_of_ne different] at same
    · intro location member
      exact .inl (mem_of_mem_eraseIdx member)

theorem Sound.step (call : MapperCall) (orderly : state.Orderly call) :
    (MapperRun.step overflowChecks state call).Sound := by
  cases call with
  | register targetNqn nsid totalBlocks => exact sound.register totalBlocks orderly
  | allocate objectSize contentHash now order =>
    exact sound.allocate contentHash now order orderly.1 orderly.2
  | free index => exact sound.free index

end

theorem Sound.new (blockSize : UInt32) (strategy : AllocationStrategy) :
    (MapperRun.new blockSize strategy).Sound where
  accounts _ _ found := by cases found
  registered _ member := absurd member not_mem_nil
  sized _ member := absurd member not_mem_nil

theorem not_overlaps_of_apart {extent other : ObjectExtent}
    (apart : extent.region.Apart other.region) : extent.overlaps other = false := by
  rw [ObjectExtent.overlaps, Bool.and_eq_false_iff, decide_eq_false_iff_not,
    decide_eq_false_iff_not, Nat.not_lt, Nat.not_lt]
  exact Or.symm apart

/-- **Blocks are not shared.** As long as namespaces are registered once and no object takes
`2 ^ 32` blocks or more, live extents do not overlap, lie in their namespace, are as many as the
objects need, and complete the free blocks. -/
theorem blocks_not_shared (overflowChecks : Bool) (blockSize : UInt32)
    (strategy : AllocationStrategy) {calls : List MapperCall}
    (orderly : Run.Guarded (step overflowChecks) Orderly (new blockSize strategy) calls) :
    let state := Run.after (MapperRun.step overflowChecks) (new blockSize strategy) calls
    (∀ key allocator, state.mapper.allocators.lookup key = some allocator →
      (extentsIn key state.live).Pairwise (fun extent other => extent.overlaps other = false) ∧
      (∀ extent ∈ extentsIn key state.live, extent.endLba ≤ allocator.totalBlocks) ∧
      allocator.freeBlocks + ((extentsIn key state.live).map ObjectExtent.blockCount).sum =
        allocator.totalBlocks) ∧
    ∀ location ∈ state.live, location.size ⌈/⌉ state.mapper.blockSize ≤ location.totalBlocks := by
  intro state
  have sound : state.Sound := Run.invariant Sound
    (fun _ call sound => sound.step call) (.new blockSize strategy) orderly
  refine ⟨fun key allocator found => ?_, sound.sized⟩
  have accounts := sound.accounts key allocator found
  obtain ⟨-, apart, -⟩ := pairwise_append.mp accounts.tiling.apart
  refine ⟨(pairwise_map.mp apart).imp not_overlaps_of_apart, ?_, ?_⟩
  · intro extent member
    exact accounts.tiling.inside extent.region (mem_append_right _ (mem_map_of_mem member))
  · have total := accounts.total_eq
    rwa [Region.total, map_map] at total

/-- Three objects, the second of which is freed before the third one comes. -/
def sampleCalls : List MapperCall :=
  let order : List NamespaceKey := [("nqn".toList, 1)]
  [.register "nqn".toList 1 100, .allocate 8192 [] 0 order, .allocate 5000 [] 0 order, .free 0,
    .allocate 1 [] 0 order]

/-- The two objects that are left share no block. -/
theorem blocks_not_shared_sample :
    let state := Run.after (step true) (new 4096 .roundRobin) sampleCalls
    state.live.length = 2 ∧ (extentsIn ("nqn".toList, 1) state.live).Pairwise
      fun extent other => extent.overlaps other = false := by
  refine ⟨by decide, ?_⟩
  have orderly : Run.Guarded (step true) Orderly (new 4096 .roundRobin) sampleCalls := by decide
  obtain ⟨namespaces, -⟩ := blocks_not_shared true 4096 .roundRobin orderly
  obtain ⟨allocator, found⟩ := Option.isSome_iff_exists.mp (by decide : ((Run.after (step true)
    (new 4096 .roundRobin) sampleCalls).mapper.allocators.lookup ("nqn".toList, 1)).isSome)
  exact (namespaces _ allocator found).1

/-- An object of `2 ^ 32` blocks gets an extent of no blocks, and freeing it loses the blocks. -/
theorem large_object_without_blocks :
    let order : List NamespaceKey := [("nqn".toList, 1)]
    let state := Run.after (step true) (new 1 .firstFit)
      [.register "nqn".toList 1 (2 ^ 32), .allocate (2 ^ 32) [] 0 order]
    (∃ location ∈ state.live, location.totalBlocks < location.size ⌈/⌉ state.mapper.blockSize) ∧
    ((step true state (.free 0)).mapper.allocators.lookup ("nqn".toList, 1)).map
      NamespaceAllocator.freeBlocks = some 0 := by
  decide

end MapperRun

namespace MapperRun

/-- The states that orderly runs reach. -/
def Reached (overflowChecks : Bool) (blockSize : UInt32) (strategy : AllocationStrategy)
    (state : MapperRun) : Prop :=
  ∃ calls, Run.Guarded (step overflowChecks) Orderly (new blockSize strategy) calls ∧
    Run.after (step overflowChecks) (new blockSize strategy) calls = state

variable {state : MapperRun} {region : Region}

end MapperRun

end Warp.Store
