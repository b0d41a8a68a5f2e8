import Warp.Store.VoteTracker

/-! # Witness nodes

A witness votes once in each election, but joining recreates the record of its vote and leaving
discards it. The votes of one election and term agree as long as the witness does not join again
where it has voted, and votes in the term it has joined with (`WitnessNode.votes_once`). Its peers
and the votes it has seen play no part here.
-/

namespace Warp.Store

open List

inductive WitnessState where
  | starting
  | active
  | voting
  | disconnected
  | shuttingDown
  | stopped
  deriving DecidableEq

structure WitnessConfig where
  autoVote : Bool := true
  maxElections : ℕ := 10
  deriving DecidableEq

structure ElectionParticipation where
  electionId : ElectionId
  term : UInt64
  vote : Option Vote

structure WitnessNode where
  nodeId : NodeId
  config : WitnessConfig
  state : WitnessState
  voteTracker : VoteTracker
  activeElections : Table ElectionId ElectionParticipation
  votesCast : List Vote

inductive WitnessCall where
  | joinElection (electionId : ElectionId) (term : UInt64)
  | castVote (electionId : ElectionId) (candidate : NodeId) (term : UInt64)
  | autoVote (electionId : ElectionId) (candidates : List NodeId) (term : UInt64)
  | leaveElection (electionId : ElectionId)

namespace WitnessNode

def withVoteTracker (nodeId : NodeId) (config : WitnessConfig) (voteTracker : VoteTracker) :
    WitnessNode where
  nodeId
  config
  state := .starting
  voteTracker
  activeElections := ∅
  votesCast := []

def new (nodeId : NodeId) (config : WitnessConfig) : WitnessNode :=
  withVoteTracker nodeId config (.new nodeId)

variable (node : WitnessNode)

def joinElection (electionId : ElectionId) (term : UInt64) : WitnessNode :=
  if node.config.maxElections ≤ node.activeElections.size then node
  else
    { node with
      activeElections := node.activeElections.insert electionId ⟨electionId, term, none⟩
      state := .voting }

/-- Cast a vote in an election. A second vote is answered with the first one. -/
def castVote (electionId : ElectionId) (candidate : NodeId) (term : UInt64) :
    Option Vote × WitnessNode :=
  match node.activeElections.lookup electionId with
  | none => (none, node)
  | some participation =>
    match participation.vote with
    | some vote => (some vote, node)
    | none =>
      let vote : Vote := ⟨node.nodeId, electionId, candidate, term⟩
      (some vote, { node with
        activeElections := node.activeElections.insert electionId
          { participation with vote := some vote }
        votesCast := node.votesCast ++ [vote]
        voteTracker := (node.voteTracker.castVote vote).2 })

def autoVote (electionId : ElectionId) (candidates : List NodeId) (term : UInt64) :
    Option Vote × WitnessNode :=
  if ¬node.config.autoVote then (none, node)
  else
    match candidates.head? with
    | none => (none, node)
    | some candidate => node.castVote electionId candidate term

def leaveElection (electionId : ElectionId) : WitnessNode :=
  let left := { node with activeElections := node.activeElections.erase electionId }
  if left.activeElections.size = 0 then { left with state := .active } else left

def step : WitnessCall → WitnessNode
  | .joinElection electionId term => node.joinElection electionId term
  | .castVote electionId candidate term => (node.castVote electionId candidate term).2
  | .autoVote electionId candidates term => (node.autoVote electionId candidates term).2
  | .leaveElection electionId => node.leaveElection electionId

def recorded (call : WitnessCall) : List Vote :=
  (node.step call).votesCast.drop node.votesCast.length

/-- A vote in this term is in the term the witness has joined with, if it is its first one. -/
def InTerm (electionId : ElectionId) (term : UInt64) : Prop :=
  ∀ participation ∈ node.activeElections.lookup electionId,
    participation.vote = none → term = participation.term
  deriving Decidable

/-- No election is joined again in a term in which the witness has voted, and votes are cast in
the term that was joined. -/
def Faithful : WitnessCall → Prop
  | .joinElection electionId term =>
    node.activeElections.size < node.config.maxElections →
      ∀ vote ∈ node.votesCast, ¬(vote.electionId = electionId ∧ vote.term = term)
  | .castVote electionId _ term => node.InTerm electionId term
  | .autoVote electionId candidates term =>
    node.config.autoVote → candidates ≠ [] → node.InTerm electionId term
  | .leaveElection _ => True

instance (call : WitnessCall) : Decidable (node.Faithful call) := by
  cases call <;> unfold Faithful <;> infer_instance

/-- Votes in the same election and term are for the same candidate. -/
def Agree (votes : List Vote) : Prop :=
  ∀ first ∈ votes, ∀ second ∈ votes, first.electionId = second.electionId →
    first.term = second.term → first.candidate = second.candidate

/-- A call records votes only in terms that the witness has joined with. -/
def Joined (call : WitnessCall) : Prop :=
  ∀ vote ∈ node.recorded call, ∃ participation ∈ node.activeElections.lookup vote.electionId,
    vote.term = participation.term

/-- The votes agree, and where the witness may still vote it has not voted. -/
structure Once : Prop where
  agree : Agree node.votesCast
  pending : ∀ electionId, ∀ participation ∈ node.activeElections.lookup electionId,
    participation.vote = none →
      ∀ vote ∈ node.votesCast, ¬(vote.electionId = electionId ∧ vote.term = participation.term)

variable {node} {electionId : ElectionId} {candidate : NodeId} {term : UInt64} {call : WitnessCall}

theorem once_withVoteTracker (nodeId : NodeId) (config : WitnessConfig)
    (voteTracker : VoteTracker) : (withVoteTracker nodeId config voteTracker).Once :=
  ⟨fun _ member => absurd member not_mem_nil, fun _ _ active => by cases active⟩

/-- What a vote does: nothing, or it is recorded for a participation without a vote. -/
theorem castVote_cases (node : WitnessNode) (electionId : ElectionId) (candidate : NodeId)
    (term : UInt64) :
    (node.castVote electionId candidate term).2 = node ∨
      ∃ participation ∈ node.activeElections.lookup electionId, participation.vote = none ∧
        (node.castVote electionId candidate term).2.votesCast =
          node.votesCast ++ [⟨node.nodeId, electionId, candidate, term⟩] ∧
        (node.castVote electionId candidate term).2.activeElections =
          node.activeElections.insert electionId
            { participation with vote := some ⟨node.nodeId, electionId, candidate, term⟩ } := by
  unfold castVote
  cases active : node.activeElections.lookup electionId with
  | none => exact .inl rfl
  | some participation =>
    cases cast : participation.vote with
    | some vote => exact .inl (by simp only [cast])
    | none => exact .inr ⟨participation, rfl, cast, by simp only [cast], by simp only [cast]⟩

theorem autoVote_cases (node : WitnessNode) (electionId : ElectionId) (candidates : List NodeId)
    (term : UInt64) :
    (node.autoVote electionId candidates term).2 = node ∨
      node.config.autoVote ∧ candidates ≠ [] ∧ ∃ candidate,
        node.autoVote electionId candidates term = node.castVote electionId candidate term := by
  unfold autoVote
  by_cases enabled : node.config.autoVote
  · rw [if_neg (not_not.mpr enabled)]
    cases candidates with
    | nil => exact .inl rfl
    | cons candidate rest => exact .inr ⟨enabled, cons_ne_nil _ _, candidate, rfl⟩
  · rw [if_pos enabled]
    exact .inl rfl

section
variable (once : node.Once)
include once

theorem Once.joinElection (faithful : node.Faithful (.joinElection electionId term)) :
    (node.joinElection electionId term).Once := by
  unfold WitnessNode.joinElection
  split_ifs with full
  · exact once
  · refine ⟨once.agree, fun other participation active unset => ?_⟩
    have found := (Table.lookup_insert_eq ..).symm.trans (Option.mem_def.mp active)
    split_ifs at found with same
    · cases found
      subst same
      exact faithful (not_le.mp full)
    · exact once.pending other participation found unset

theorem Once.leaveElection : (node.leaveElection electionId).Once := by
  have left : Once { node with activeElections := node.activeElections.erase electionId } := by
    refine ⟨once.agree, fun other participation active => ?_⟩
    have found := (Table.lookup_erase_eq ..).symm.trans (Option.mem_def.mp active)
    split_ifs at found with same
    exact once.pending other participation found
  unfold WitnessNode.leaveElection
  dsimp only
  split_ifs
  · exact ⟨left.agree, left.pending⟩
  · exact left

theorem Once.castVote (inTerm : node.InTerm electionId term) :
    (node.castVote electionId candidate term).2.Once := by
  obtain same | ⟨participation, active, unset, votes, elections⟩ :=
    castVote_cases node electionId candidate term
  · rwa [same]
  have fresh := once.pending electionId participation active unset
  have sameTerm := inTerm participation active unset
  constructor
  · rw [votes]
    -- an earlier vote is not in the election and the term of the new one
    intro first firstCast second secondCast sameElection sameTerms
    rw [mem_append, mem_singleton] at firstCast secondCast
    rcases firstCast with earlier | rfl <;> rcases secondCast with other | rfl
    · exact once.agree first earlier second other sameElection sameTerms
    · exact absurd ⟨sameElection, sameTerms.trans sameTerm⟩ (fresh first earlier)
    · exact absurd ⟨sameElection.symm, sameTerms.symm.trans sameTerm⟩ (fresh second other)
    · rfl
  · intro other otherParticipation otherActive otherUnset vote cast
    rw [elections, Table.lookup_insert_eq] at otherActive
    split_ifs at otherActive with same
    · cases otherActive
      cases otherUnset
    · rw [votes, mem_append, mem_singleton] at cast
      rcases cast with earlier | rfl
      · exact once.pending other otherParticipation otherActive otherUnset vote earlier
      · exact fun matching => same matching.1.symm

theorem Once.step (faithful : node.Faithful call) :
    (node.step call).Once := by
  cases call with
  | joinElection electionId term => exact once.joinElection faithful
  | castVote electionId candidate term => exact once.castVote faithful
  | autoVote electionId candidates term =>
    obtain same | ⟨enabled, nonempty, candidate, same⟩ :=
      autoVote_cases node electionId candidates term
    · rwa [WitnessNode.step, same]
    · rw [WitnessNode.step, same]
      exact once.castVote (faithful enabled nonempty)
  | leaveElection electionId => exact once.leaveElection

end

theorem votesCast_joinElection :
    (node.joinElection electionId term).votesCast = node.votesCast := by
  unfold WitnessNode.joinElection
  split_ifs
  · rfl
  · rfl

theorem votesCast_leaveElection : (node.leaveElection electionId).votesCast = node.votesCast := by
  unfold WitnessNode.leaveElection
  dsimp only
  split_ifs
  · rfl
  · rfl

theorem joined_of_eq (same : (node.step call).votesCast = node.votesCast) :
    node.Joined call := by
  intro vote cast
  rw [recorded, same, drop_length] at cast
  cases cast

theorem joined_of_cast (isCast : node.step call = (node.castVote electionId candidate term).2)
    (inTerm : node.InTerm electionId term) : node.Joined call := by
  obtain same | ⟨participation, active, unset, votes, -⟩ :=
    castVote_cases node electionId candidate term
  · exact joined_of_eq (by rw [isCast, same])
  · intro vote cast
    rw [recorded, isCast, votes, drop_left, mem_singleton] at cast
    subst cast
    exact ⟨participation, active, inTerm participation active unset⟩

theorem joined_of_faithful (faithful : node.Faithful call) :
    node.Joined call := by
  cases call with
  | joinElection electionId term => exact joined_of_eq votesCast_joinElection
  | castVote electionId candidate term => exact joined_of_cast rfl faithful
  | autoVote electionId candidates term =>
    obtain same | ⟨enabled, nonempty, candidate, same⟩ :=
      autoVote_cases node electionId candidates term
    · exact joined_of_eq (by rw [WitnessNode.step, same])
    · exact joined_of_cast (congrArg Prod.snd same) (faithful enabled nonempty)
  | leaveElection electionId => exact joined_of_eq votesCast_leaveElection

/-- **A witness votes once** in an election and term, and in the term it has joined the election
with, in every run of faithful calls. -/
theorem votes_once (nodeId : NodeId) (config : WitnessConfig) (voteTracker : VoteTracker)
    (calls : List WitnessCall)
    (faithful : Run.Guarded step Faithful (withVoteTracker nodeId config voteTracker) calls) :
    Agree (Run.after step (withVoteTracker nodeId config voteTracker) calls).votesCast ∧
      Run.Guarded step Joined (withVoteTracker nodeId config voteTracker) calls := by
  constructor
  · have once := Run.invariant Once (fun _ _ once faithful => once.step faithful)
      (once_withVoteTracker nodeId config voteTracker) faithful
    exact once.agree
  · exact Run.guarded_imp (fun _ => True) (fun _ _ _ => joined_of_faithful)
      (fun _ _ _ _ => trivial) trivial faithful

/-- A witness that votes in one term, leaves, and votes for another candidate in the next term. -/
theorem votes_once_next_term :
    Agree (Run.after step (new 1 {}) [.joinElection 1 1, .castVote 1 2 1, .leaveElection 1,
      .joinElection 1 2, .autoVote 1 [3] 2]).votesCast := by
  have faithful : Run.Guarded step Faithful (new 1 {}) [.joinElection 1 1, .castVote 1 2 1,
      .leaveElection 1, .joinElection 1 2, .autoVote 1 [3] 2] := by
    decide
  exact (votes_once 1 {} (.new 1) _ faithful).1

/-- Leaving an election and joining it again in the same term, a witness votes a second time. -/
theorem votes_twice :
    (Run.after step (new 1 {}) [.joinElection 1 1, .castVote 1 2 1, .leaveElection 1,
      .joinElection 1 1, .castVote 1 3 1]).votesCast = [⟨1, 1, 2, 1⟩, ⟨1, 1, 3, 1⟩] ∧
    (Run.after step (new 1 {}) [.joinElection 1 1, .castVote 1 2 7]).votesCast = [⟨1, 1, 2, 7⟩] :=
  ⟨rfl, rfl⟩

end WitnessNode

end Warp.Store
