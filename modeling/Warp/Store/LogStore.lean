import Mathlib.Data.Prod.Lex
import Mathlib.Tactic.Order
import Warp.Foundation.ByteOrder
import Warp.Foundation.Machine
import Warp.Foundation.OrderedIndex
import Warp.Foundation.PurgedLog
import Warp.Foundation.Run
import Warp.Store.MetadataStateMachine

/-! # Log storage for Raft

The log is kept in memory, or in an embedded database under big-endian keys. Both report the last
entry that is stored as the position of the log, and the purge position apart from it. The position
is therefore behind the purge position exactly if something was purged and no entry is left
(`log_position_iff`). Both stores answer alike except to inverted ranges and after a purge at the
largest index (`log_stores_agree_iff`).

The trees of the database are ordered maps on byte strings, whose operations do not fail.
-/

namespace Warp.Store

open List LogId OrderedIndex

/-- Log identifiers are compared by the term and the node of the leader, and the index. -/
def LogId.rank (logId : LogId) : ℕ ×ₗ ℕ ×ₗ ℕ :=
  toLex (logId.leaderId.term.toNat, toLex (logId.leaderId.nodeId.toNat, logId.index.toNat))

theorem LogId.rank_injective : Function.Injective rank := by
  rintro ⟨⟨term, nodeId⟩, index⟩ ⟨⟨otherTerm, otherNodeId⟩, otherIndex⟩ same
  have parts := toLex.injective same
  rw [Prod.mk.injEq, toLex_inj, Prod.mk.injEq] at parts
  obtain ⟨sameTerm, sameNode, sameIndex⟩ := parts
  cases UInt64.toNat_inj.mp sameTerm
  cases UInt64.toNat_inj.mp sameNode
  cases UInt64.toNat_inj.mp sameIndex
  rfl

instance : LinearOrder LogId := LinearOrder.lift' LogId.rank LogId.rank_injective

def LogId.number (logId : LogId) : ℕ := logId.index.toNat

structure LogState where
  lastPurgedLogId : Option LogId
  lastLogId : Option LogId
  deriving DecidableEq

/-- The last entry is not before the purge position. -/
def LogState.Advanced (state : LogState) : Prop :=
  ∀ purged ∈ state.lastPurgedLogId, ∃ last ∈ state.lastLogId, purged ≤ last
  deriving Decidable

/-- Raft's vote: for which leader, and whether a quorum has granted it. -/
structure RaftVote where
  leaderId : LeaderId
  committed : Bool
  deriving DecidableEq

/-- One end of a range. -/
inductive Bound (Key : Type) where
  | included (key : Key)
  | excluded (key : Key)
  | unbounded

namespace Bound

def map {Key Other : Type} (change : Key → Other) : Bound Key → Bound Other
  | included key => included (change key)
  | excluded key => excluded (change key)
  | unbounded => unbounded

variable {Key : Type} [LinearOrder Key]

/-- A key lies in a range that starts at the bound. -/
def Opens (key : Key) : Bound Key → Prop
  | included first => first ≤ key
  | excluded before => before < key
  | unbounded => True

/-- A key lies in a range that ends at the bound. -/
def Closes (key : Key) : Bound Key → Prop
  | included last => key ≤ last
  | excluded past => key < past
  | unbounded => True

instance (key : Key) (bound : Bound Key) : Decidable (bound.Opens key) := by
  cases bound <;> unfold Opens <;> infer_instance

instance (key : Key) (bound : Bound Key) : Decidable (bound.Closes key) := by
  cases bound <;> unfold Closes <;> infer_instance

/-- A range on which reading an ordered map panics. -/
def Inverted : Bound Key → Bound Key → Prop
  | excluded start, excluded stop => stop ≤ start
  | included start, included stop | included start, excluded stop
  | excluded start, included stop => stop < start
  | _, _ => False

instance (start stop : Bound Key) : Decidable (Inverted start stop) := by
  cases start <;> cases stop <;> unfold Inverted <;> infer_instance

theorem Inverted.not_closes {start stop : Bound Key} (inverted : Inverted start stop) {key : Key}
    (opens : start.Opens key) : ¬ stop.Closes key := by
  cases start <;> cases stop <;> simp only [Inverted, Opens, Closes] at inverted opens ⊢ <;> order

end Bound

inductive LogCall (BucketConfig ObjectMetadataEntry Membership : Type) where
  | append (entries : List (Entry BucketConfig ObjectMetadataEntry Membership))
  | truncate (logId : LogId)
  | purge (logId : LogId)
  | saveVote (vote : RaftVote)
  | saveCommitted (committed : Option LogId)

variable {BucketConfig ObjectMetadataEntry Membership : Type}
  {entries : List (Entry BucketConfig ObjectMetadataEntry Membership)} (logId : LogId)
  {call : LogCall BucketConfig ObjectMetadataEntry Membership}

structure MemLogStore (BucketConfig ObjectMetadataEntry Membership : Type) where
  lastPurgedLogId : Option LogId
  vote : Option RaftVote
  log : OrderedIndex fun entry : Entry BucketConfig ObjectMetadataEntry Membership =>
    entry.logId.number
  committed : Option LogId
  /-- The map has got an entry. From then on it has a root, even if it is empty again. -/
  rooted : Bool

namespace MemLogStore

def new : MemLogStore BucketConfig ObjectMetadataEntry Membership :=
  ⟨none, none, .empty, none, false⟩

variable (store : MemLogStore BucketConfig ObjectMetadataEntry Membership)

def lastLogId : Option LogId := store.log.values.getLast?.map Entry.logId

def getLogState : LogState := ⟨store.lastPurgedLogId, store.lastLogId⟩

def append (entries : List (Entry BucketConfig ObjectMetadataEntry Membership)) :
    MemLogStore BucketConfig ObjectMetadataEntry Membership :=
  { store with
    log := entries.foldl OrderedIndex.insert store.log
    rooted := store.rooted || !entries.isEmpty }

def truncate (logId : LogId) : MemLogStore BucketConfig ObjectMetadataEntry Membership :=
  { store with log := store.log.retain fun entry => entry.logId.number < logId.number }

def purge (logId : LogId) : MemLogStore BucketConfig ObjectMetadataEntry Membership :=
  { store with
    log := store.log.retain fun entry => logId.number < entry.logId.number
    lastPurgedLogId := some logId }

/-- The entries of a range. A map without root does not look at the bounds. -/
def tryGetLogEntries (start stop : Bound UInt64) :
    Outcome Empty (List (Entry BucketConfig ObjectMetadataEntry Membership)) :=
  if Bound.Inverted (start.map UInt64.toNat) (stop.map UInt64.toNat) ∧ store.rooted then .panic
  else .ok (store.log.values.filter fun entry =>
    (start.map UInt64.toNat).Opens entry.logId.number ∧
      (stop.map UInt64.toNat).Closes entry.logId.number)

def step : LogCall BucketConfig ObjectMetadataEntry Membership →
    MemLogStore BucketConfig ObjectMetadataEntry Membership
  | .append entries => store.append entries
  | .truncate logId => store.truncate logId
  | .purge logId => store.purge logId
  | .saveVote vote => { store with vote := some vote }
  | .saveCommitted committed => { store with committed }

def after (calls : List (LogCall BucketConfig ObjectMetadataEntry Membership)) :
    MemLogStore BucketConfig ObjectMetadataEntry Membership :=
  Run.after step new calls

end MemLogStore

/-- Persistent log store: the tree of log entries, and the tree of the other data. -/
structure SledLogStore where
  logTree : OrderedIndex fun pair : Bytes × Bytes => pair.1.rank
  metaTree : Table Bytes Bytes

/-- How entries, log identifiers and votes are serialised. -/
structure LogSerde (BucketConfig ObjectMetadataEntry Membership : Type) where
  entries : Serde (Entry BucketConfig ObjectMetadataEntry Membership)
  logIds : Serde LogId
  votes : Serde RaftVote

/-- What a call serialises is read back. -/
def LogSerde.Restores (serde : LogSerde BucketConfig ObjectMetadataEntry Membership) :
    LogCall BucketConfig ObjectMetadataEntry Membership → Prop
  | .append entries =>
    ∀ entry ∈ entries, serde.entries.fromBytes (serde.entries.toBytes entry) = .ok entry
  | .truncate _ => True
  | .purge logId => serde.logIds.fromBytes (serde.logIds.toBytes logId) = .ok logId
  | .saveVote vote => serde.votes.fromBytes (serde.votes.toBytes vote) = .ok vote
  | .saveCommitted committed =>
    ∀ logId ∈ committed, serde.logIds.fromBytes (serde.logIds.toBytes logId) = .ok logId

namespace SledLogStore

def keyOf (name : String) : Bytes := name.toList.map fun letter => UInt8.ofNat letter.toNat

def keyVote : Bytes := keyOf "vote"

def keyCommitted : Bytes := keyOf "committed"

def keyLastPurged : Bytes := keyOf "last_purged"

def empty : SledLogStore := ⟨.empty, ∅⟩

def indexToKey (index : ℕ) : Bytes := Bytes.beBytes 8 index

variable (overflowChecks : Bool) (serde : LogSerde BucketConfig ObjectMetadataEntry Membership)
  (store : SledLogStore)

def lastLogId : Option LogId :=
  store.logTree.values.getLast?.bind fun pair =>
    (serde.entries.fromBytes pair.2).toOption.map Entry.logId

def getLastPurged : Option LogId :=
  (store.metaTree.lookup keyLastPurged).bind fun value => (serde.logIds.fromBytes value).toOption

def setLastPurged (logId : LogId) : SledLogStore :=
  { store with metaTree := store.metaTree.insert keyLastPurged (serde.logIds.toBytes logId) }

def getLogState : LogState := ⟨store.getLastPurged serde, store.lastLogId serde⟩

def readVote : Option RaftVote :=
  (store.metaTree.lookup keyVote).bind fun value => (serde.votes.fromBytes value).toOption

def saveVote (vote : RaftVote) : SledLogStore :=
  { store with metaTree := store.metaTree.insert keyVote (serde.votes.toBytes vote) }

def readCommitted : Option LogId :=
  (store.metaTree.lookup keyCommitted).bind fun value => (serde.logIds.fromBytes value).toOption

def saveCommitted : Option LogId → SledLogStore
  | some logId =>
    { store with metaTree := store.metaTree.insert keyCommitted (serde.logIds.toBytes logId) }
  | none => { store with metaTree := store.metaTree.erase keyCommitted }

/-- The entries of a range of keys. Values that cannot be read are left out. -/
def tryGetLogEntries (start stop : Bound UInt64) :
    Outcome Empty (List (Entry BucketConfig ObjectMetadataEntry Membership)) :=
  let keyRank (index : UInt64) := (indexToKey index.toNat).rank
  .ok ((store.logTree.values.filter fun pair =>
    (start.map keyRank).Opens pair.1.rank ∧ (stop.map keyRank).Closes pair.1.rank).filterMap
      fun pair => (serde.entries.fromBytes pair.2).toOption)

def pair (entry : Entry BucketConfig ObjectMetadataEntry Membership) : Bytes × Bytes :=
  (indexToKey entry.logId.number, serde.entries.toBytes entry)

def append (entries : List (Entry BucketConfig ObjectMetadataEntry Membership)) : SledLogStore :=
  { store with logTree := (entries.map (pair serde)).foldl OrderedIndex.insert store.logTree }

def truncate (logId : LogId) : SledLogStore :=
  { store with logTree := store.logTree.retain fun pair =>
      pair.1.rank < (indexToKey logId.number).rank }

/-- The end of the range of keys is computed before anything is removed. -/
def purge (logId : LogId) : Outcome Empty Unit × SledLogStore :=
  match (Machine.fit overflowChecks 64 (logId.number + 1) : Outcome Empty ℕ) with
  | .ok stop =>
    (.ok (), setLastPurged serde { store with logTree := store.logTree.retain fun pair =>
      (indexToKey stop).rank ≤ pair.1.rank } logId)
  | .error failure => (.error failure, store)
  | .panic => (.panic, store)

def step : LogCall BucketConfig ObjectMetadataEntry Membership → SledLogStore
  | .append entries => store.append serde entries
  | .truncate logId => store.truncate logId
  | .purge logId => (store.purge overflowChecks serde logId).2
  | .saveVote vote => store.saveVote serde vote
  | .saveCommitted committed => store.saveCommitted serde committed

def after (calls : List (LogCall BucketConfig ObjectMetadataEntry Membership)) : SledLogStore :=
  Run.after (step overflowChecks serde) empty calls

end SledLogStore

/-- Which entries are in the log, and how far it was purged. -/
def MemLogStore.view (store : MemLogStore BucketConfig ObjectMetadataEntry Membership) :
    PurgedLog LogId := ⟨store.log.values.map Entry.logId, store.lastPurgedLogId⟩

/-- The same for the persistent log. -/
def SledLogStore.view (serde : LogSerde BucketConfig ObjectMetadataEntry Membership)
    (store : SledLogStore) : PurgedLog LogId where
  ids := store.logTree.values.filterMap fun pair =>
    (serde.entries.fromBytes pair.2).toOption.map Entry.logId
  purged := store.getLastPurged serde

/-- What Raft may call: entries are appended after the last one, those above the purge position
are truncated, and the log is purged up to an entry in it or an earlier one. -/
def LogCall.Permitted (log : PurgedLog LogId) :
    LogCall BucketConfig ObjectMetadataEntry Membership → Prop
  | .append entries => PurgedLog.Follows LogId.number log.tip (entries.map Entry.logId)
  | .truncate logId => ∀ purged ∈ log.purged, purged.number < logId.number
  | .purge logId => log.Reached LogId.number logId
  | .saveVote _ | .saveCommitted _ => True

instance (log : PurgedLog LogId) (call : LogCall BucketConfig ObjectMetadataEntry Membership) :
    Decidable (call.Permitted log) := by
  cases call <;> unfold LogCall.Permitted <;> infer_instance

namespace MemLogStore

variable {store : MemLogStore BucketConfig ObjectMetadataEntry Membership}

theorem lastLogId_eq : store.lastLogId = store.view.ids.getLast? := (List.getLast?_map ..).symm

theorem advanced_iff : store.getLogState.Advanced ↔ store.view.Advanced := by
  unfold LogState.Advanced PurgedLog.Advanced
  rw [← lastLogId_eq]
  rfl

theorem view_append (sound : store.view.Sound number)
    (follows : PurgedLog.Follows number store.view.tip (entries.map Entry.logId)) :
    (store.append entries).view = store.view.append (entries.map Entry.logId) := by
  induction entries generalizing store with
  | nil =>
    unfold PurgedLog.append
    rw [map_nil, append_nil]
    rfl
  | cons entry rest ih =>
    have single : (store.append [entry]).view = store.view.append [entry.logId] := by
      have largest (other : Entry BucketConfig ObjectMetadataEntry Membership)
          (member : other ∈ store.log.values) : other.logId.number < entry.logId.number :=
        (sound.lt_of_follows follows.1 (mem_map_of_mem member)).2
      unfold view append PurgedLog.append
      rw [foldl_cons, foldl_nil, values_insert_of_forall_lt largest,
        map_append, map_singleton]
    have next : (store.append [entry]).view.Sound number := by
      rw [single]
      exact sound.append_one follows.1
    have more := ih next (by rw [single, PurgedLog.tip_append_one]; exact follows.2)
    rw [single, PurgedLog.append_append] at more
    exact more

theorem view_truncate :
    (store.truncate logId).view = store.view.truncate number logId.number := by
  unfold view truncate PurgedLog.truncate retain
  rw [filter_map]
  rfl

theorem view_purge :
    (store.purge logId).view = store.view.purge number logId := by
  unfold view purge PurgedLog.purge retain
  rw [filter_map]
  rfl

theorem sound_step (sound : store.view.Sound number) (permitted : call.Permitted store.view) :
    (store.step call).view.Sound number := by
  cases call with
  | append entries =>
    rw [step, view_append sound permitted]
    exact sound.append permitted
  | truncate logId =>
    rw [step, view_truncate]
    exact sound.truncate permitted
  | purge logId =>
    rw [step, view_purge]
    exact sound.purge permitted
  | saveVote | saveCommitted => exact sound

end MemLogStore

namespace SledLogStore

variable {overflowChecks : Bool} {serde : LogSerde BucketConfig ObjectMetadataEntry Membership}
  {store : SledLogStore} {memory : MemLogStore BucketConfig ObjectMetadataEntry Membership}
variable (serde store memory) in
/-- A persistent store holds what a store in memory does, in a form that can be read. -/
structure Mirrors : Prop where
  entries : store.logTree.values = memory.log.values.map (pair serde)
  restored : ∀ entry ∈ memory.log.values,
    serde.entries.fromBytes (serde.entries.toBytes entry) = .ok entry
  purged : store.getLastPurged serde = memory.lastPurgedLogId
  vote : store.readVote serde = memory.vote
  committed : store.readCommitted serde = memory.committed

theorem rank_indexToKey_lt_iff {first second : ℕ} (fits : first < 2 ^ 64)
    (otherFits : second < 2 ^ 64) :
    (indexToKey first).rank < (indexToKey second).rank ↔ first < second :=
  Bytes.rank_beBytes_lt_iff fits otherFits

theorem number_lt : logId.number < 2 ^ 64 := logId.index.toNat_lt

theorem rank_pair_lt_iff (first second : Entry BucketConfig ObjectMetadataEntry Membership) :
    (pair serde first).1.rank < (pair serde second).1.rank ↔
      first.logId.number < second.logId.number :=
  rank_indexToKey_lt_iff (number_lt _) (number_lt _)

theorem mirrors_empty : Mirrors serde empty MemLogStore.new :=
  ⟨rfl, fun _ member => absurd member not_mem_nil, rfl, rfl, rfl⟩

variable (mirrors : Mirrors serde store memory)
include mirrors

theorem Mirrors.append (restored : serde.Restores (.append entries)) :
    Mirrors serde (store.append serde entries) (memory.append entries) := by
  induction entries generalizing store memory with
  | nil => exact ⟨mirrors.entries, mirrors.restored, mirrors.purged, mirrors.vote,
      mirrors.committed⟩
  | cons entry rest ih =>
    have single : Mirrors serde (store.append serde [entry]) (memory.append [entry]) := {
      entries := values_insert_of_embedding (pair serde) rank_pair_lt_iff
        mirrors.entries entry
      restored := fun other member => by
        rcases mem_insert.mp member with rfl | ⟨kept, -⟩
        · exact restored other mem_cons_self
        · exact mirrors.restored other kept
      purged := mirrors.purged
      vote := mirrors.vote
      committed := mirrors.committed }
    have more := ih single (forall_mem_of_forall_mem_cons restored)
    exact ⟨more.entries, more.restored, more.purged, more.vote, more.committed⟩

theorem Mirrors.truncate (logId : LogId) :
    Mirrors serde (store.truncate logId) (memory.truncate logId) where
  entries := by
    change store.logTree.values.filter _ = (memory.log.values.filter _).map _
    rw [mirrors.entries, filter_map]
    simp only [Function.comp_def, pair, rank_indexToKey_lt_iff (number_lt _) (number_lt _)]
  restored := fun entry member => mirrors.restored entry (mem_of_mem_filter member)
  purged := mirrors.purged
  vote := mirrors.vote
  committed := mirrors.committed

theorem Mirrors.saveVote {vote : RaftVote} (restored : serde.Restores (.saveVote vote)) :
    Mirrors serde (store.saveVote serde vote) { memory with vote := some vote } := by
  refine ⟨mirrors.entries, mirrors.restored, ?_, ?_, ?_⟩
  · rw [← mirrors.purged, getLastPurged, SledLogStore.saveVote, AList.lookup_insert_ne (by decide)]
    rfl
  · rw [readVote, SledLogStore.saveVote, AList.lookup_insert, Option.bind_some, restored]
    rfl
  · rw [← mirrors.committed, readCommitted, SledLogStore.saveVote,
      AList.lookup_insert_ne (by decide)]
    rfl

theorem Mirrors.saveCommitted {committed : Option LogId}
    (restored : serde.Restores (.saveCommitted committed)) :
    Mirrors serde (store.saveCommitted serde committed) { memory with committed } := by
  refine ⟨?_, mirrors.restored, ?_, ?_, ?_⟩
  · rw [← mirrors.entries]
    cases committed <;> rfl
  · rw [← mirrors.purged, getLastPurged, getLastPurged]
    cases committed with
    | none => rw [SledLogStore.saveCommitted, AList.lookup_erase_ne (by decide)]
    | some logId => rw [SledLogStore.saveCommitted, AList.lookup_insert_ne (by decide)]
  · rw [← mirrors.vote, readVote, readVote]
    cases committed with
    | none => rw [SledLogStore.saveCommitted, AList.lookup_erase_ne (by decide)]
    | some logId => rw [SledLogStore.saveCommitted, AList.lookup_insert_ne (by decide)]
  · cases committed with
    | none =>
      rw [readCommitted, SledLogStore.saveCommitted, AList.lookup_erase]
      rfl
    | some logId =>
      rw [readCommitted, SledLogStore.saveCommitted, AList.lookup_insert, Option.bind_some,
        restored logId rfl]
      rfl

/-- Marking what was purged leaves the vote and the committed position. -/
theorem Mirrors.setLastPurged {logId : LogId} (restored : serde.Restores (.purge logId)) :
    Mirrors serde (store.setLastPurged serde logId)
      { memory with lastPurgedLogId := some logId } := by
  refine ⟨mirrors.entries, mirrors.restored, ?_, ?_, ?_⟩
  · rw [getLastPurged, SledLogStore.setLastPurged, AList.lookup_insert, Option.bind_some, restored]
    rfl
  · rw [← mirrors.vote, readVote, SledLogStore.setLastPurged, AList.lookup_insert_ne (by decide)]
    rfl
  · rw [← mirrors.committed, readCommitted, SledLogStore.setLastPurged,
      AList.lookup_insert_ne (by decide)]
    rfl

variable (overflowChecks) in
theorem Mirrors.purge_of_lt {logId : LogId} (restored : serde.Restores (.purge logId))
    (fits : logId.number + 1 < 2 ^ 64) :
    Mirrors serde (store.purge overflowChecks serde logId).2 (memory.purge logId) := by
  have marked := mirrors.setLastPurged restored
  rw [SledLogStore.purge, Machine.fit_of_lt fits]
  refine ⟨?_, fun entry member => mirrors.restored entry (mem_of_mem_filter member),
    marked.purged, marked.vote, marked.committed⟩
  change store.logTree.values.filter _ = (memory.log.values.filter _).map _
  rw [mirrors.entries, filter_map]
  simp only [Function.comp_def, pair, ← not_lt, rank_indexToKey_lt_iff (number_lt _) fits,
    Nat.lt_succ_iff, not_not]

/-- With the largest number the end of the range wraps around, and nothing is removed. -/
theorem Mirrors.purge_wrapped {logId : LogId} (restored : serde.Restores (.purge logId))
    (largest : ¬ logId.number + 1 < 2 ^ 64) :
    (store.purge false serde logId).1 = .ok () ∧
      Mirrors serde (store.purge false serde logId).2
        { memory with lastPurgedLogId := some logId } := by
  have wrapped : (logId.number + 1) % 2 ^ 64 = 0 := by
    have bound := number_lt logId
    omega
  have marked := mirrors.setLastPurged restored
  rw [SledLogStore.purge, Machine.fit, if_neg largest, if_neg Bool.false_ne_true, wrapped]
  refine ⟨rfl, ⟨?_, mirrors.restored, marked.purged, marked.vote, marked.committed⟩⟩
  change store.logTree.values.filter _ = memory.log.values.map _
  rw [mirrors.entries]
  refine filter_eq_self.mpr fun stored member => decide_eq_true ?_
  obtain ⟨entry, -, rfl⟩ := mem_map.mp member
  rw [← not_lt, pair, rank_indexToKey_lt_iff (number_lt _) (by decide)]
  exact Nat.not_lt_zero _

omit mirrors in
theorem purge_checked {logId : LogId} (largest : ¬ logId.number + 1 < 2 ^ 64) :
    store.purge true serde logId = (.panic, store) := by
  rw [purge, Machine.fit, if_neg largest]
  rfl

theorem Mirrors.view_eq :
    store.view serde = memory.view := by
  unfold view MemLogStore.view
  rw [mirrors.entries, mirrors.purged, filterMap_map, ← filterMap_eq_map]
  rw [filterMap_congr fun entry member => ?_]
  rw [Function.comp_apply, pair, mirrors.restored entry member]
  rfl

theorem Mirrors.getLogState_eq :
    store.getLogState serde = memory.getLogState := by
  unfold getLogState MemLogStore.getLogState lastLogId MemLogStore.lastLogId
  rw [mirrors.entries, mirrors.purged, getLast?_map]
  cases last : memory.log.values.getLast? with
  | none => rfl
  | some entry =>
    rw [Option.map_some, Option.bind_some, pair, mirrors.restored entry (mem_of_getLast? last)]
    rfl

theorem Mirrors.step (sound : memory.view.Sound number)
    (permitted : call.Permitted (store.view serde)) (restored : serde.Restores call) :
    ∃ next, Mirrors serde (store.step overflowChecks serde call) next ∧
      next.view.Sound number := by
  rw [mirrors.view_eq] at permitted
  have inMemory := MemLogStore.sound_step sound permitted
  cases call with
  | append entries => exact ⟨_, mirrors.append restored, inMemory⟩
  | truncate logId => exact ⟨_, mirrors.truncate logId, inMemory⟩
  | purge logId =>
    by_cases fits : logId.number + 1 < 2 ^ 64
    · exact ⟨_, mirrors.purge_of_lt overflowChecks restored fits, inMemory⟩
    · cases overflowChecks with
      | true =>
        refine ⟨memory, ?_, sound⟩
        rwa [SledLogStore.step, purge_checked fits]
      | false => exact ⟨_, (mirrors.purge_wrapped restored fits).2, sound.mark permitted⟩
  | saveVote vote => exact ⟨_, mirrors.saveVote restored, sound⟩
  | saveCommitted committed => exact ⟨_, mirrors.saveCommitted restored, sound⟩

variable (serde) in
/-- What a call writes can be read back, and it does not purge up to the largest number. -/
def Handles (call : LogCall BucketConfig ObjectMetadataEntry Membership) : Prop :=
  serde.Restores call ∧ ∀ logId, call = .purge logId → logId.number + 1 < 2 ^ 64

theorem mirrors_after (calls : List (LogCall BucketConfig ObjectMetadataEntry Membership))
    (handled : ∀ call ∈ calls, Handles serde call) :
    Mirrors serde (Run.after (step overflowChecks serde) store calls)
      (Run.after MemLogStore.step memory calls) := by
  induction calls generalizing store memory with
  | nil => exact mirrors
  | cons call rest ih =>
    obtain ⟨⟨restored, small⟩, later⟩ := forall_mem_cons.mp handled
    refine ih ?_ later
    cases call with
    | append entries => exact mirrors.append restored
    | truncate logId => exact mirrors.truncate logId
    | purge logId => exact mirrors.purge_of_lt overflowChecks restored (small logId rfl)
    | saveVote vote => exact mirrors.saveVote restored
    | saveCommitted committed => exact mirrors.saveCommitted restored

omit mirrors in
/-- Keys are ordered as their indices, so that a range of keys holds the keys of the range. -/
theorem opens_closes_iff (start stop : Bound UInt64) {index : ℕ} (fits : index < 2 ^ 64) :
    ((start.map fun first => (indexToKey first.toNat).rank).Opens (indexToKey index).rank ↔
      (start.map UInt64.toNat).Opens index) ∧
    ((stop.map fun last => (indexToKey last.toNat).rank).Closes (indexToKey index).rank ↔
      (stop.map UInt64.toNat).Closes index) := by
  constructor
  · cases start with
    | included first =>
      exact not_lt.symm.trans ((rank_indexToKey_lt_iff fits first.toNat_lt).not.trans not_lt)
    | excluded before => exact rank_indexToKey_lt_iff before.toNat_lt fits
    | unbounded => exact Iff.rfl
  · cases stop with
    | included last =>
      exact not_lt.symm.trans ((rank_indexToKey_lt_iff last.toNat_lt fits).not.trans not_lt)
    | excluded past => exact rank_indexToKey_lt_iff fits past.toNat_lt
    | unbounded => exact Iff.rfl

/-- A range of the persistent log holds the entries of the range in memory. -/
theorem Mirrors.tryGetLogEntries_eq (start stop : Bound UInt64) :
    store.tryGetLogEntries serde start stop = .ok (memory.log.values.filter fun entry =>
      (start.map UInt64.toNat).Opens entry.logId.number ∧
        (stop.map UInt64.toNat).Closes entry.logId.number) := by
  have bounds (entry : Entry BucketConfig ObjectMetadataEntry Membership) :=
    opens_closes_iff start stop (number_lt entry.logId)
  rw [SledLogStore.tryGetLogEntries, mirrors.entries, filter_map, filterMap_map]
  simp only [Function.comp_def, pair, bounds]
  refine congrArg Outcome.ok ((filterMap_congr fun entry member => ?_).trans filterMap_some)
  rw [mirrors.restored entry (mem_of_mem_filter member)]
  rfl

variable (serde store memory) in
/-- Both stores give the same answers, on ranges that are not inverted. -/
structure Agrees : Prop where
  entries : ∀ start stop : Bound UInt64,
    ¬ Bound.Inverted (start.map UInt64.toNat) (stop.map UInt64.toNat) →
      store.tryGetLogEntries serde start stop = memory.tryGetLogEntries start stop
  state : store.getLogState serde = memory.getLogState
  vote : store.readVote serde = memory.vote
  committed : store.readCommitted serde = memory.committed

theorem Mirrors.agrees : Agrees serde store memory where
  entries start stop proper := by
    rw [mirrors.tryGetLogEntries_eq, MemLogStore.tryGetLogEntries, if_neg fun both => proper both.1]
  state := mirrors.getLogState_eq
  vote := mirrors.vote
  committed := mirrors.committed

/-- On an inverted range the persistent log finds nothing, and a map with a root panics. -/
theorem Mirrors.tryGetLogEntries_inverted {start stop : Bound UInt64}
    (inverted : Bound.Inverted (start.map UInt64.toNat) (stop.map UInt64.toNat)) :
    store.tryGetLogEntries serde start stop = .ok [] ∧
      memory.tryGetLogEntries start stop = if memory.rooted then .panic else .ok [] := by
  have nothing : (memory.log.values.filter fun entry =>
      (start.map UInt64.toNat).Opens entry.logId.number ∧
        (stop.map UInt64.toNat).Closes entry.logId.number) = [] := by
    refine filter_eq_nil_iff.mpr fun entry _ both => ?_
    have inside := of_decide_eq_true both
    exact inverted.not_closes inside.1 inside.2
  rw [mirrors.tryGetLogEntries_eq, MemLogStore.tryGetLogEntries, nothing]
  simp [inverted]

/-- A purge at the largest index removes nothing from the persistent log. -/
theorem Mirrors.purge_agrees_iff {logId : LogId} (restored : serde.Restores (.purge logId))
    (largest : ¬ logId.number + 1 < 2 ^ 64) :
    ((store.purge overflowChecks serde logId).1 = .ok () ∧
      Agrees serde (store.purge overflowChecks serde logId).2 (memory.purge logId)) ↔
      overflowChecks = false ∧ memory.log.values = [] := by
  cases overflowChecks with
  | true =>
    rw [purge_checked largest]
    simp
  | false =>
    obtain ⟨done, marked⟩ := mirrors.purge_wrapped restored largest
    have nothing : (memory.purge logId).log.values = [] := by
      refine filter_eq_nil_iff.mpr fun entry _ later => ?_
      have bound := number_lt entry.logId
      have above := of_decide_eq_true later
      omega
    constructor
    · rintro ⟨-, agrees⟩
      have whole := agrees.entries .unbounded .unbounded id
      rw [marked.tryGetLogEntries_eq, MemLogStore.tryGetLogEntries, nothing] at whole
      simpa [Bound.map, Bound.Opens, Bound.Closes, Bound.Inverted] using whole
    · rintro ⟨-, empty⟩
      have same : Mirrors serde (store.purge false serde logId).2 (memory.purge logId) := by
        refine ⟨marked.entries.trans ?_, ?_, marked.purged, marked.vote, marked.committed⟩
        · rw [nothing, empty]
        · rw [nothing]
          exact fun _ member => absurd member not_mem_nil
      exact ⟨done, same.agrees⟩

end SledLogStore

/-- **The position of the log** is not behind the purge position exactly if an entry is left or
nothing was purged, after every run of permitted calls. -/
theorem log_position_iff (serde : LogSerde BucketConfig ObjectMetadataEntry Membership)
    (overflowChecks : Bool) (calls : List (LogCall BucketConfig ObjectMetadataEntry Membership)) :
    (Run.Guarded MemLogStore.step (fun store call => call.Permitted store.view) .new calls →
      ((MemLogStore.after calls).getLogState.Advanced ↔
        (MemLogStore.after calls).log.values ≠ [] ∨
          (MemLogStore.after calls).lastPurgedLogId = none)) ∧
    (Run.Guarded (SledLogStore.step overflowChecks serde)
        (fun store call => call.Permitted (store.view serde) ∧ serde.Restores call) .empty calls →
      (((SledLogStore.after overflowChecks serde calls).getLogState serde).Advanced ↔
        (SledLogStore.after overflowChecks serde calls).logTree.values ≠ [] ∨
          (SledLogStore.after overflowChecks serde calls).getLastPurged serde = none)) := by
  constructor
  · intro permitted
    have sound := Run.invariant (fun store : MemLogStore BucketConfig ObjectMetadataEntry
      Membership => store.view.Sound number) (fun _ _ => MemLogStore.sound_step)
      PurgedLog.sound_empty permitted
    rw [MemLogStore.after, MemLogStore.advanced_iff, sound.advanced_iff, MemLogStore.view, ne_eq,
      map_eq_nil_iff]
  · intro permitted
    obtain ⟨memory, mirrors, sound⟩ := Run.invariant (fun store => ∃ memory : MemLogStore
        BucketConfig ObjectMetadataEntry Membership, SledLogStore.Mirrors serde store memory ∧
          memory.view.Sound number)
      (fun _ _ mirrored permitted => by
        obtain ⟨memory, mirrors, sound⟩ := mirrored
        exact mirrors.step sound permitted.1 permitted.2)
      ⟨.new, SledLogStore.mirrors_empty, PurgedLog.sound_empty⟩ permitted
    rw [SledLogStore.after, mirrors.getLogState_eq, MemLogStore.advanced_iff, sound.advanced_iff,
      MemLogStore.view, mirrors.entries, mirrors.purged, ne_eq, map_eq_nil_iff, ne_eq,
      map_eq_nil_iff]

/-- The run of a log that is written and purged. -/
def samplePurge : List (LogCall Unit Unit Unit) :=
  [.append [⟨⟨⟨1, 1⟩, 1⟩, .blank⟩], .purge ⟨⟨1, 1⟩, 1⟩]

/-- The largest index. -/
def largestId : LogId := ⟨⟨1, 1⟩, 0xffffffffffffffff⟩

/-- MessagePack of log identifiers with small numbers, or with the largest index. -/
def smallIds : Serde LogId where
  toBytes logId := [0x92, 0x92, logId.leaderId.term.toUInt8, logId.leaderId.nodeId.toUInt8] ++
    if logId = largestId then 0xcf :: List.replicate 8 0xff else [logId.index.toUInt8]
  fromBytes
    | [0x92, 0x92, term, nodeId, index] => .ok ⟨⟨term.toUInt64, nodeId.toUInt64⟩, index.toUInt64⟩
    | [0x92, 0x92, 1, 1, 0xcf, 0xff, 0xff, 0xff, 0xff, 0xff, 0xff, 0xff, 0xff] => .ok largestId
    | _ => .error "invalid log id"

/-- MessagePack of blank entries with such identifiers. -/
def sampleLogSerde : LogSerde Unit Unit Unit where
  entries :=
    { toBytes entry := 0x92 :: smallIds.toBytes entry.logId ++ [0xa5, 0x42, 0x6c, 0x61, 0x6e, 0x6b]
      fromBytes bytes := (smallIds.fromBytes (bytes.tail.take 5)).map (⟨·, .blank⟩) }
  logIds := smallIds
  votes :=
    { toBytes vote := [0x92, 0x92, vote.leaderId.term.toUInt8, vote.leaderId.nodeId.toUInt8,
        if vote.committed then 0xc3 else 0xc2]
      fromBytes
        | [0x92, 0x92, term, nodeId, flag] => .ok ⟨⟨term.toUInt64, nodeId.toUInt64⟩, flag = 0xc3⟩
        | _ => .error "invalid vote" }

/-- Two entries, the first of which is purged. -/
def sampleKept : List (LogCall Unit Unit Unit) :=
  [.append [⟨⟨⟨1, 1⟩, 1⟩, .blank⟩, ⟨⟨⟨1, 1⟩, 2⟩, .blank⟩], .purge ⟨⟨1, 1⟩, 1⟩]

/-- The position is that of the entry that is left. -/
theorem log_position_iff_kept :
    (MemLogStore.after sampleKept).getLogState = ⟨some ⟨⟨1, 1⟩, 1⟩, some ⟨⟨1, 1⟩, 2⟩⟩ ∧
      (MemLogStore.after sampleKept).getLogState.Advanced ∧
      ((SledLogStore.after true sampleLogSerde sampleKept).getLogState sampleLogSerde).Advanced := by
  obtain ⟨inMemory, persistent⟩ := log_position_iff sampleLogSerde true sampleKept
  have restored : sampleLogSerde.Restores
      (.append [⟨⟨⟨1, 1⟩, 1⟩, .blank⟩, ⟨⟨⟨1, 1⟩, 2⟩, .blank⟩]) := by
    intro entry member
    rcases mem_pair.mp member with rfl | rfl <;> rfl
  exact ⟨by decide, (inMemory (by decide)).mpr (.inl (by decide)),
    (persistent ⟨⟨by decide, restored⟩, ⟨by decide, rfl⟩, trivial⟩).mpr (.inl (by decide))⟩

/-- Once the only entry is purged, the log has no position any more. -/
theorem log_position_backwards :
    (Run.Guarded MemLogStore.step (fun store call => call.Permitted store.view) .new samplePurge ∧
      (MemLogStore.after samplePurge).getLogState = ⟨some ⟨⟨1, 1⟩, 1⟩, none⟩ ∧
      ¬(MemLogStore.after samplePurge).getLogState.Advanced) ∧
    Run.Guarded (SledLogStore.step true sampleLogSerde)
      (fun store call => call.Permitted (store.view sampleLogSerde)) .empty samplePurge ∧
      (SledLogStore.after true sampleLogSerde samplePurge).getLogState sampleLogSerde =
        ⟨some ⟨⟨1, 1⟩, 1⟩, none⟩ := by
  decide

/-- **The persistent log refines the one in memory.** After every run of calls that it handles,
its tree holds the entries of the log in memory, in order, and both report the same state. -/
theorem persistent_log_refines (serde : LogSerde BucketConfig ObjectMetadataEntry Membership)
    (overflowChecks : Bool) (calls : List (LogCall BucketConfig ObjectMetadataEntry Membership))
    (handled : ∀ call ∈ calls, SledLogStore.Handles serde call) :
    (SledLogStore.after overflowChecks serde calls).logTree.values =
        (MemLogStore.after calls).log.values.map (SledLogStore.pair serde) ∧
      (SledLogStore.after overflowChecks serde calls).getLogState serde =
        (MemLogStore.after calls).getLogState := by
  have mirrors : SledLogStore.Mirrors serde (SledLogStore.after overflowChecks serde calls)
      (MemLogStore.after calls) :=
    SledLogStore.mirrors_after SledLogStore.mirrors_empty calls handled
  exact ⟨mirrors.entries, mirrors.getLogState_eq⟩

/-- A log that is written and purged. -/
theorem persistent_log_refines_purge :
    (SledLogStore.after true sampleLogSerde samplePurge).getLogState sampleLogSerde =
      (MemLogStore.after samplePurge).getLogState := by
  refine (persistent_log_refines sampleLogSerde true samplePurge ?_).2
  simp only [samplePurge, forall_mem_cons]
  exact ⟨⟨forall_mem_singleton.mpr rfl, nofun⟩, ⟨rfl, fun _ same => by cases same; decide⟩, nofun⟩

/-- **When both logs answer alike.** After every run of calls that the persistent log handles, both
stores return the same entries for every range that is not inverted, and the same log state, vote
and committed position. On an inverted range the persistent log returns nothing, while the log in
memory panics once it has had an entry. And a purge at the largest index, whose range of keys
overflows, returns and leaves the stores alike exactly if the build does not check for overflow and
no entry was left. -/
theorem log_stores_agree_iff (serde : LogSerde BucketConfig ObjectMetadataEntry Membership)
    (overflowChecks : Bool) (calls : List (LogCall BucketConfig ObjectMetadataEntry Membership))
    (handled : ∀ call ∈ calls, SledLogStore.Handles serde call) :
    let store := SledLogStore.after overflowChecks serde calls
    let memory := MemLogStore.after calls
    SledLogStore.Agrees serde store memory ∧
    (∀ start stop : Bound UInt64,
      Bound.Inverted (start.map UInt64.toNat) (stop.map UInt64.toNat) →
        store.tryGetLogEntries serde start stop = .ok [] ∧
          memory.tryGetLogEntries start stop = if memory.rooted then .panic else .ok []) ∧
    ∀ logId : LogId, serde.Restores (.purge logId) → logId.index.toNat = 2 ^ 64 - 1 →
      ((store.purge overflowChecks serde logId).1 = .ok () ∧
        SledLogStore.Agrees serde (store.purge overflowChecks serde logId).2
          (memory.purge logId) ↔ overflowChecks = false ∧ memory.log.values = []) := by
  have mirrors : SledLogStore.Mirrors serde (SledLogStore.after overflowChecks serde calls)
      (MemLogStore.after calls) :=
    SledLogStore.mirrors_after SledLogStore.mirrors_empty calls handled
  refine ⟨mirrors.agrees, fun start stop => mirrors.tryGetLogEntries_inverted, ?_⟩
  intro logId restored largest
  exact mirrors.purge_agrees_iff restored (by rw [LogId.number, largest]; decide)

/-- Two entries, a vote and a committed position; then the first entry is purged. -/
def sampleVoted : List (LogCall Unit Unit Unit) :=
  [.append [⟨⟨⟨1, 1⟩, 1⟩, .blank⟩, ⟨⟨⟨1, 1⟩, 2⟩, .blank⟩], .saveVote ⟨⟨1, 1⟩, true⟩,
    .saveCommitted (some ⟨⟨1, 1⟩, 1⟩), .purge ⟨⟨1, 1⟩, 1⟩]

/-- The stores agree after this run. -/
theorem log_stores_agree_iff_voted :
    (MemLogStore.after sampleVoted).vote = some ⟨⟨1, 1⟩, true⟩ ∧
      SledLogStore.Agrees sampleLogSerde (SledLogStore.after true sampleLogSerde sampleVoted)
        (MemLogStore.after sampleVoted) := by
  refine ⟨rfl, (log_stores_agree_iff sampleLogSerde true sampleVoted ?_).1⟩
  simp only [sampleVoted, forall_mem_cons]
  have restored : sampleLogSerde.Restores
      (.append [⟨⟨⟨1, 1⟩, 1⟩, .blank⟩, ⟨⟨⟨1, 1⟩, 2⟩, .blank⟩]) := by
    intro entry member
    rcases mem_pair.mp member with rfl | rfl <;> rfl
  exact ⟨⟨restored, nofun⟩, ⟨rfl, nofun⟩, ⟨fun _ same => by cases same; rfl, nofun⟩,
    ⟨rfl, fun _ same => by cases same; decide⟩, nofun⟩

/-- A purge at the largest index empties the log in memory only, and an inverted range is read from
the persistent log only. -/
theorem log_stores_disagree :
    let entry : Entry Unit Unit Unit := ⟨⟨⟨1, 1⟩, 1⟩, .blank⟩
    (sampleLogSerde.Restores (.purge largestId) ∧
      (SledLogStore.after false sampleLogSerde [.append [entry], .purge largestId]).tryGetLogEntries
        sampleLogSerde .unbounded .unbounded = .ok [entry] ∧
      (MemLogStore.after [.append [entry], .purge largestId]).tryGetLogEntries
        .unbounded .unbounded = .ok []) ∧
    (SledLogStore.after false sampleLogSerde [.append [entry]]).tryGetLogEntries sampleLogSerde
        (.included 2) (.excluded 1) = .ok [] ∧
      (MemLogStore.after [.append [entry]]).tryGetLogEntries (.included 2) (.excluded 1) =
        .panic :=
  ⟨⟨rfl, rfl, rfl⟩, rfl, rfl⟩

end Warp.Store
