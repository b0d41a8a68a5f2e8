import Warp.Foundation.Run
import Warp.Foundation.Table

/-! # Transfer sessions

Marking a chunk as decoded enters it in the set of decoded chunks first, so it counts as completed
when it is to be listed and never is. What remains is right for both kinds of sessions, but only a
regular one can be resumed (`resumes_iff`). The saved file is that of the session itself. Recorded
shards are counted without regard to repetitions (`ErasureState.counts_iff`).
-/

namespace Warp.Core

structure ErasureState where
  receivedShards : Table ℕ (List ℕ) := ∅
  decodedChunks : Finset ℕ := ∅

def ErasureState.recordShard (state : ErasureState) (chunkId shardIdx : ℕ) : ErasureState :=
  { state with
    receivedShards := state.receivedShards.insert chunkId
      ((state.receivedShards.lookup chunkId).getD [] ++ [shardIdx]) }

def ErasureState.markDecoded (state : ErasureState) (chunkId : ℕ) : ErasureState :=
  { state with decodedChunks := insert chunkId state.decodedChunks }

inductive SessionState where
  | created | analyzing | negotiating | transferring | verifying | completed | failed | paused
  deriving DecidableEq

structure Session where
  state : SessionState := .created
  completedChunks : List ℕ := []
  totalChunks : ℕ := 0
  erasureState : Option ErasureState := none

namespace Session

variable (session : Session)

def newWithErasure : Session where
  erasureState := some {}

def recordShard (chunkId shardIdx : ℕ) : Session :=
  { session with
    erasureState := session.erasureState.map (·.recordShard chunkId shardIdx) }

def isChunkCompleted (chunkId : ℕ) : Bool :=
  match session.erasureState with
  | some state => chunkId ∈ state.decodedChunks
  | none => chunkId ∈ session.completedChunks

def completeChunk (chunkId : ℕ) : Session :=
  if session.isChunkCompleted chunkId then session
  else { session with completedChunks := session.completedChunks ++ [chunkId] }

def markChunkDecoded (chunkId : ℕ) : Session :=
  let erasureState := session.erasureState.map (·.markDecoded chunkId)
  { session with erasureState }.completeChunk chunkId

def remainingChunks : List ℕ :=
  match session.erasureState with
  | some state => (List.range session.totalChunks).filter (· ∉ state.decodedChunks)
  | none => (List.range session.totalChunks).filter (· ∉ session.completedChunks)

def canResume : Bool :=
  (session.state = .paused ∨ session.state = .failed ∨ session.state = .transferring) ∧
    !session.completedChunks.isEmpty

end Session

open Session

/-- A session with the chunks completed in it and, if it was saved, both as they were then. -/
structure Transfer where
  session : Session
  completed : Finset ℕ := ∅
  saved : Option (Session × Finset ℕ) := none

inductive SessionAction where
  | recordShard (chunkId shardIdx : ℕ)
  | markChunkDecoded (chunkId : ℕ)
  | completeChunk (chunkId : ℕ)
  | setState (state : SessionState)
  | save
  | load

namespace Transfer

/-- A new session for a number of chunks, which is erasure-coded or not. -/
def start (totalChunks : ℕ) (coded : Bool) : Transfer where
  session := { (if coded then .newWithErasure else {} : Session) with totalChunks }

def step (transfer : Transfer) : SessionAction → Transfer
  | .recordShard chunkId shardIdx =>
    { transfer with session := transfer.session.recordShard chunkId shardIdx }
  | .markChunkDecoded chunkId =>
    { transfer with
      session := transfer.session.markChunkDecoded chunkId
      completed := insert chunkId transfer.completed }
  | .completeChunk chunkId =>
    { transfer with
      session := transfer.session.completeChunk chunkId
      completed := insert chunkId transfer.completed }
  | .setState state => { transfer with session := { transfer.session with state } }
  | .save => { transfer with saved := some (transfer.session, transfer.completed) }
  | .load =>
    match transfer.saved with
    | some (session, completed) => { transfer with session, completed }
    | none => transfer

/-- Chunks are decoded in erasure-coded sessions and completed in regular ones. -/
def Suited (transfer : Transfer) : SessionAction → Prop
  | .markChunkDecoded _ => transfer.session.erasureState.isSome = true
  | .completeChunk _ => transfer.session.erasureState.isSome = false
  | _ => True

end Transfer

/-- The completed chunks are those listed, or those decoded while none is listed. -/
inductive Records (totalChunks : ℕ) : Bool → Session → Finset ℕ → Prop
  | regular (state : SessionState) (chunks : List ℕ) :
    Records totalChunks false ⟨state, chunks, totalChunks, none⟩ chunks.toFinset
  | coded (state : SessionState) (erasure : ErasureState) :
    Records totalChunks true ⟨state, [], totalChunks, some erasure⟩ erasure.decodedChunks

namespace Records

variable {totalChunks : ℕ} {coded : Bool} {session : Session} {completed : Finset ℕ}

section
variable (records : Records totalChunks coded session completed)
include records

theorem isSome_erasureState : session.erasureState.isSome = coded := by
  cases records <;> rfl

theorem recordShard (chunkId shardIdx : ℕ) :
    Records totalChunks coded (session.recordShard chunkId shardIdx) completed := by
  cases records with
  | regular state chunks => exact .regular state chunks
  | coded state erasure => exact .coded state (erasure.recordShard chunkId shardIdx)

theorem setState (state : SessionState) :
    Records totalChunks coded { session with state } completed := by
  cases records with
  | regular _ chunks => exact .regular state chunks
  | coded _ erasure => exact .coded state erasure

end

theorem markChunkDecoded (records : Records totalChunks true session completed) (chunkId : ℕ) :
    Records totalChunks true (session.markChunkDecoded chunkId) (insert chunkId completed) := by
  obtain - | ⟨state, erasure⟩ := records
  -- the chunk is in the set already when it is to be listed
  have marked : markChunkDecoded ⟨state, [], totalChunks, some erasure⟩ chunkId =
      ⟨state, [], totalChunks, some (erasure.markDecoded chunkId)⟩ := by
    simp [markChunkDecoded, completeChunk, isChunkCompleted,
      ErasureState.markDecoded]
  rw [marked]
  exact .coded state (erasure.markDecoded chunkId)

theorem completeChunk (records : Records totalChunks false session completed) (chunkId : ℕ) :
    Records totalChunks false (session.completeChunk chunkId) (insert chunkId completed) := by
  obtain ⟨state, chunks⟩ := records
  unfold completeChunk
  split
  · next known =>
    rw [Finset.insert_eq_of_mem (List.mem_toFinset.mpr (of_decide_eq_true known))]
    exact .regular state chunks
  · have added : insert chunkId chunks.toFinset = (chunks ++ [chunkId]).toFinset := by
      ext other
      simp
    rw [added]
    exact .regular state (chunks ++ [chunkId])

theorem remainingChunks (records : Records totalChunks coded session completed) :
    session.remainingChunks = (List.range totalChunks).filter (· ∉ completed) := by
  cases records with
  | regular state chunks => simp [remainingChunks]
  | coded state erasure => rfl

theorem canResume_iff (records : Records totalChunks coded session completed)
    (resumable : session.state = .paused ∨ session.state = .failed ∨ session.state = .transferring)
    (nonempty : completed.Nonempty) : session.canResume = true ↔ coded = false := by
  cases records with
  | regular state chunks => simpa [canResume, resumable] using nonempty
  | coded state erasure => simp [canResume]

end Records

/-- Both the session and the saved one have their completed chunks on record. -/
def Transfer.Sound (totalChunks : ℕ) (coded : Bool) (transfer : Transfer) : Prop :=
  Records totalChunks coded transfer.session transfer.completed ∧
    ∀ saved ∈ transfer.saved, Records totalChunks coded saved.1 saved.2

theorem Transfer.Sound.step {totalChunks : ℕ} {coded : Bool} {transfer : Transfer}
    {action : SessionAction} (sound : transfer.Sound totalChunks coded)
    (suited : transfer.Suited action) : (transfer.step action).Sound totalChunks coded := by
  obtain ⟨records, saved⟩ := sound
  cases action with
  | recordShard chunkId shardIdx => exact ⟨records.recordShard chunkId shardIdx, saved⟩
  | markChunkDecoded chunkId =>
    obtain rfl : coded = true := records.isSome_erasureState.symm.trans suited
    exact ⟨records.markChunkDecoded chunkId, saved⟩
  | completeChunk chunkId =>
    obtain rfl : coded = false := records.isSome_erasureState.symm.trans suited
    exact ⟨records.completeChunk chunkId, saved⟩
  | setState state => exact ⟨records.setState state, saved⟩
  | save => exact ⟨records, fun _ same => Option.mem_some.mp same ▸ records⟩
  | load =>
    cases found : transfer.saved with
    | none => simpa [Sound, Transfer.step, found] using records
    | some file =>
      have loaded := saved file found
      simpa [Sound, Transfer.step, found] using loaded

/-- **When a transfer can be resumed.** After every run of a session, what remains is what was
not completed; once a chunk is completed, a session that is paused, failed or transferring can be
resumed if and only if it is not erasure-coded. -/
theorem resumes_iff (totalChunks : ℕ) (coded : Bool) (actions : List SessionAction)
    (suited : Run.Guarded Transfer.step Transfer.Suited (.start totalChunks coded) actions) :
    let reached := Run.after Transfer.step (.start totalChunks coded) actions
    reached.session.remainingChunks =
        (List.range totalChunks).filter (· ∉ reached.completed) ∧
      (reached.session.state = .paused ∨ reached.session.state = .failed ∨
          reached.session.state = .transferring →
        reached.completed.Nonempty → (reached.session.canResume = true ↔ coded = false)) := by
  have initially : (Transfer.start totalChunks coded).Sound totalChunks coded := by
    cases coded with
    | false => exact ⟨.regular .created [], nofun⟩
    | true => exact ⟨.coded .created {}, nofun⟩
  have sound := Run.invariant (Transfer.Sound totalChunks coded) (fun _ _ => Transfer.Sound.step)
    initially suited
  exact ⟨sound.1.remainingChunks, fun resumable nonempty => sound.1.canResume_iff resumable nonempty⟩

/-- A regular session is paused after its first chunk, saved and loaded again. -/
theorem resumes_regular :
    let reached := Run.after Transfer.step (.start 2 false)
      [.completeChunk 0, .setState .paused, .save, .load]
    reached.session.remainingChunks = [1] ∧ reached.session.canResume = true := by
  have settled := resumes_iff 2 false [.completeChunk 0, .setState .paused, .save, .load]
    ⟨rfl, trivial, trivial, trivial, trivial⟩
  exact ⟨settled.1, (settled.2 (by decide) (by decide)).mpr rfl⟩

/-- An erasure-coded session is paused after its first chunk and cannot be resumed. -/
theorem resume_refused :
    let reached := Run.after Transfer.step (.start 2 true)
      [.markChunkDecoded 0, .setState .paused]
    reached.session.state = .paused ∧ reached.completed = {0} ∧
      reached.session.canResume = false := by
  decide

namespace ErasureState

open List

variable (state : ErasureState) (dataShards chunkId : ℕ) (shards : List (ℕ × ℕ))

def canDecode : Bool :=
  match state.receivedShards.lookup chunkId with
  | some shards => dataShards ≤ shards.length
  | none => false

def shardsNeeded : ℕ :=
  match state.receivedShards.lookup chunkId with
  | some shards => dataShards - shards.length
  | none => dataShards

/-- The state after shards were recorded, each for a chunk. -/
def recordAll : ErasureState :=
  shards.foldl (fun state shard => state.recordShard shard.1 shard.2) {}

/-- The shard indices recorded for a chunk. -/
def indicesOf : List ℕ := (shards.filter (·.1 = chunkId)).map Prod.snd

theorem lookup_recordAll : (recordAll shards).receivedShards.lookup chunkId =
    if indicesOf chunkId shards = [] then none else some (indicesOf chunkId shards) := by
  induction shards using reverseRecOn with
  | nil => rfl
  | append_singleton earlier shard ih =>
    rw [recordAll, foldl_append, foldl_cons, foldl_nil, ← recordAll, recordShard,
      Table.lookup_insert_eq, indicesOf, filter_append, map_append, ← indicesOf]
    split
    · next same =>
      subst same
      rw [ih]
      split <;> simp [*]
    · next other => simpa [Ne.symm other] using ih

/-- **Shards are counted right** exactly if no index came twice or enough different ones came, and
one came where none is needed. -/
theorem counts_iff :
    ((recordAll shards).canDecode dataShards chunkId = true ↔
          dataShards ≤ (indicesOf chunkId shards).toFinset.card) ∧
        (recordAll shards).shardsNeeded dataShards chunkId =
          dataShards - (indicesOf chunkId shards).toFinset.card ↔
      ((indicesOf chunkId shards).Nodup ∨
          dataShards ≤ (indicesOf chunkId shards).toFinset.card) ∧
        (dataShards = 0 → indicesOf chunkId shards ≠ []) := by
  rw [canDecode, shardsNeeded, lookup_recordAll]
  generalize indicesOf chunkId shards = indices
  have bound := indices.toFinset_card_le
  have exact_iff : indices.toFinset.card = indices.length ↔ indices.Nodup :=
    Multiset.toFinset_card_eq_card_iff_nodup (m := .ofList indices)
  rw [← exact_iff]
  split_ifs with nothing
  · simp [nothing]
  · have came := length_pos_of_ne_nil nothing
    simp only [decide_eq_true_eq, ne_eq, nothing, not_false_eq_true, implies_true, and_true]
    omega

/-- A shard that is sent again counts as a second one. -/
theorem retransmission_counted : (recordAll [(7, 0), (7, 0)]).canDecode 2 7 = true ∧
    (indicesOf 7 [(7, 0), (7, 0)]).toFinset.card = 1 := by
  decide

end ErasureState

end Warp.Core
