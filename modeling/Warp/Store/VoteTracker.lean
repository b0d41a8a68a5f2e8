import Warp.Foundation.Outcome
import Warp.Foundation.Run
import Warp.Foundation.Table

/-! # Vote tracking and quorum management

The leader that a tracker names has the votes of a majority of the registered nodes, in the current
term, as long as the voters are registered when the votes are counted and the term does not move
during an election (`VoteTracker.leader_backed`). Whether an election has timed out, and the order
in which the candidates are looked at, are inputs of the check.
-/

namespace Warp.Store

open List

abbrev NodeId := UInt64

abbrev ElectionId := UInt64

structure Vote where
  nodeId : NodeId
  electionId : ElectionId
  candidate : NodeId
  term : UInt64
  deriving DecidableEq

inductive VoteResult where
  | won
  | pending
  | timeout
  | split
  deriving DecidableEq

structure Election where
  id : ElectionId
  term : UInt64
  votes : Table NodeId Vote
  result : Option VoteResult

namespace Election

def new (id : ElectionId) (term : UInt64) : Election := ⟨id, term, ∅, none⟩

variable (election : Election)

/-- Votes count for this election and term, and only one vote per node. -/
def addVote (vote : Vote) : Bool × Election :=
  if vote.electionId ≠ election.id ∨ vote.term ≠ election.term then (false, election)
  else if (election.votes.lookup vote.nodeId).isSome then (false, election)
  else (true, { election with votes := election.votes.insert vote.nodeId vote })

theorem addVote_snd (vote : Vote) : (election.addVote vote).2.term = election.term ∧
    (election.addVote vote).2.result = election.result := by
  unfold addVote
  split_ifs
  · exact ⟨rfl, rfl⟩
  · exact ⟨rfl, rfl⟩
  · exact ⟨rfl, rfl⟩

def countVotesFor (candidate : NodeId) : ℕ :=
  (election.votes.values.filter fun vote => vote.candidate = candidate).length

/-- A candidate with votes and enough of them, the first one in the given order. -/
def getWinner (quorumSize : ℕ) (order : List NodeId) : Option NodeId :=
  order.find? fun candidate =>
    0 < election.countVotesFor candidate && quorumSize ≤ election.countVotesFor candidate

end Election

structure VoteTracker where
  nodeId : NodeId
  clusterNodes : Finset NodeId
  currentElection : Option Election
  currentTerm : UInt64
  currentLeader : Option NodeId
  nextElectionId : ElectionId
  fixedQuorum : Option ℕ

inductive VoteCall where
  | registerNode (id : NodeId)
  | removeNode (id : NodeId)
  | startElection
  | castVote (vote : Vote)
  | voteForSelf
  | acceptTerm (term : UInt64)
  | checkElection (expired : Bool) (order : List NodeId)

namespace VoteTracker

def new (nodeId : NodeId) : VoteTracker where
  nodeId
  clusterNodes := ∅
  currentElection := none
  currentTerm := 0
  currentLeader := none
  nextElectionId := 1
  fixedQuorum := none

variable (tracker : VoteTracker)

def registerNode (id : NodeId) : VoteTracker :=
  { tracker with clusterNodes := insert id tracker.clusterNodes }

def removeNode (id : NodeId) : VoteTracker :=
  { tracker with clusterNodes := tracker.clusterNodes.erase id }

def quorumSize : ℕ := tracker.fixedQuorum.getD (tracker.clusterNodes.card / 2 + 1)

/-- Start a new election. The counters wrap around, but the sum that follows is checked. -/
def startElection (overflowChecks : Bool) : Outcome Empty ElectionId × VoteTracker :=
  let electionId := tracker.nextElectionId
  let term := tracker.currentTerm + 1
  let counted := { tracker with nextElectionId := electionId + 1, currentTerm := term }
  if overflowChecks ∧ tracker.currentTerm.toNat + 1 = 2 ^ 64 then (.panic, counted)
  else
    (.ok electionId, { counted with
      currentElection := some (.new electionId term)
      currentLeader := none })

def castVote (vote : Vote) : Bool × VoteTracker :=
  match tracker.currentElection with
  | none => (false, tracker)
  | some election =>
    let answer := election.addVote vote
    (answer.1, { tracker with currentElection := some answer.2 })

def voteForSelf : Option Vote × VoteTracker :=
  match tracker.currentElection with
  | none => (none, tracker)
  | some election =>
    let vote : Vote := ⟨tracker.nodeId, election.id, tracker.nodeId, election.term⟩
    (some vote, (tracker.castVote vote).2)

def conclude (election : Election) (result : VoteResult) : VoteTracker :=
  { tracker with currentElection := some { election with result := some result } }

def checkElection (expired : Bool) (order : List NodeId) : VoteResult × VoteTracker :=
  match tracker.currentElection with
  | none => (.pending, tracker)
  | some election =>
    match election.result with
    | some result => (result, tracker)
    | none =>
      if expired then (.timeout, tracker.conclude election .timeout)
      else
        match election.getWinner tracker.quorumSize order with
        | some winner =>
          (.won, { tracker.conclude election .won with currentLeader := some winner })
        | none =>
          -- All votes, but no winner.
          if tracker.clusterNodes.card ≤ election.votes.size then
            (.split, tracker.conclude election .split)
          else (.pending, tracker)

def leader : Option NodeId := tracker.currentLeader

def term : UInt64 := tracker.currentTerm

def acceptTerm (term : UInt64) : VoteTracker :=
  if tracker.currentTerm < term then { tracker with currentTerm := term, currentLeader := none }
  else tracker

def step (overflowChecks : Bool) (tracker : VoteTracker) : VoteCall → VoteTracker
  | .registerNode id => tracker.registerNode id
  | .removeNode id => tracker.removeNode id
  | .startElection => (tracker.startElection overflowChecks).2
  | .castVote vote => (tracker.castVote vote).2
  | .voteForSelf => tracker.voteForSelf.2
  | .acceptTerm term => tracker.acceptTerm term
  | .checkElection expired order => (tracker.checkElection expired order).2

/-- The registered nodes with a vote for a candidate in an election. -/
def supporters (election : Election) (candidate : NodeId) : Finset NodeId :=
  tracker.clusterNodes.filter fun node =>
    (election.votes.lookup node).map Vote.candidate = some candidate

/-- More than half of the registered nodes have a vote for the candidate in the current election,
which is of the current term. -/
def Backed (candidate : NodeId) : Prop :=
  ∃ election ∈ tracker.currentElection,
    tracker.clusterNodes.card < 2 * (tracker.supporters election candidate).card ∧
      election.term = tracker.term
  deriving Decidable

/-- No election is waiting for its result. -/
def Settled : Prop := ∀ election ∈ tracker.currentElection, election.result ≠ none
  deriving Decidable

/-- Votes are counted while their nodes are registered, and the term does not move while an
election is waiting for its result. -/
def Orderly (overflowChecks : Bool) (tracker : VoteTracker) : VoteCall → Prop
  | .checkElection _ _ =>
    ∀ election ∈ tracker.currentElection, election.result = none →
      ∀ node ∈ election.votes.keys, node ∈ tracker.clusterNodes
  | .acceptTerm term => tracker.Settled ∨ term ≤ tracker.currentTerm
  | .startElection => overflowChecks = true → tracker.currentTerm.toNat + 1 < 2 ^ 64
  | .registerNode _ | .removeNode _ | .castVote _ | .voteForSelf => True

instance (overflowChecks : Bool) (tracker : VoteTracker) (call : VoteCall) :
    Decidable (Orderly overflowChecks tracker call) := by
  have (nodes : List NodeId) : Decidable (∀ node ∈ nodes, node ∈ tracker.clusterNodes) :=
    List.decidableBAll _ _
  cases call <;> unfold Orderly <;> infer_instance

structure Sound : Prop where
  fixedQuorum : tracker.fixedQuorum = none
  term : ∀ election ∈ tracker.currentElection, election.result = none →
    election.term = tracker.currentTerm

variable {tracker} {overflowChecks : Bool} {election : Election}

section
variable (sound : tracker.Sound)
include sound

theorem Sound.castVote (vote : Vote) : (tracker.castVote vote).2.Sound := by
  unfold VoteTracker.castVote
  split
  · exact sound
  · rename_i election current
    refine ⟨sound.fixedQuorum, ?_⟩
    rintro voted ⟨⟩ undecided
    obtain ⟨term, result⟩ := election.addVote_snd vote
    rw [result] at undecided
    rw [term]
    exact sound.term election current undecided

omit sound in
theorem checkElection_cases (tracker : VoteTracker) (expired : Bool) (order : List NodeId) :
    (tracker.checkElection expired order).2 = tracker ∨
      ∃ election, tracker.currentElection = some election ∧ election.result = none ∧
        ((∃ result, (tracker.checkElection expired order).2 = tracker.conclude election result) ∨
          ∃ winner, election.getWinner tracker.quorumSize order = some winner ∧
            (tracker.checkElection expired order).2 =
              { tracker.conclude election .won with currentLeader := some winner }) := by
  unfold checkElection
  cases current : tracker.currentElection with
  | none => exact .inl rfl
  | some election =>
    dsimp only
    cases decided : election.result with
    | some result => exact .inl rfl
    | none =>
      dsimp only
      by_cases late : expired = true
      · rw [if_pos late]
        exact .inr ⟨election, rfl, decided, .inl ⟨.timeout, rfl⟩⟩
      · rw [if_neg late]
        cases counted : election.getWinner tracker.quorumSize order with
        | some winner => exact .inr ⟨election, rfl, decided, .inr ⟨winner, counted, rfl⟩⟩
        | none =>
          dsimp only
          split_ifs with complete
          · exact .inr ⟨election, rfl, decided, .inl ⟨.split, rfl⟩⟩
          · exact .inl rfl

theorem Sound.conclude (election : Election) (result : VoteResult) :
    (tracker.conclude election result).Sound := by
  refine ⟨sound.fixedQuorum, ?_⟩
  rintro concluded ⟨⟩ undecided
  cases undecided

theorem Sound.checkElection (expired : Bool) (order : List NodeId) :
    (tracker.checkElection expired order).2.Sound := by
  obtain same | ⟨election, -, -, ⟨result, same⟩ | ⟨winner, -, same⟩⟩ :=
    tracker.checkElection_cases expired order
  · rw [same]
    exact sound
  · rw [same]
    exact sound.conclude election result
  · rw [same]
    obtain ⟨fixedQuorum, term⟩ := sound.conclude election .won
    exact ⟨fixedQuorum, term⟩

theorem Sound.startElection (fits : overflowChecks = true → tracker.currentTerm.toNat + 1 < 2 ^ 64) :
    (tracker.startElection overflowChecks).2.Sound := by
  unfold VoteTracker.startElection
  dsimp only
  rw [if_neg fun overflow => (fits overflow.1).ne overflow.2]
  refine ⟨sound.fixedQuorum, ?_⟩
  rintro election ⟨⟩ -
  rfl

theorem Sound.acceptTerm {term : UInt64} (steady : tracker.Settled ∨ term ≤ tracker.currentTerm) :
    (tracker.acceptTerm term).Sound := by
  unfold VoteTracker.acceptTerm
  split_ifs with higher
  · rcases steady with settled | lower
    · refine ⟨sound.fixedQuorum, fun election current undecided => ?_⟩
      exact absurd undecided (settled election current)
    · exact absurd higher (UInt64.not_lt.mpr lower)
  · exact sound

theorem Sound.step (call : VoteCall) (orderly : Orderly overflowChecks tracker call) :
    (VoteTracker.step overflowChecks tracker call).Sound := by
  cases call with
  | registerNode | removeNode => exact ⟨sound.fixedQuorum, sound.term⟩
  | startElection => exact sound.startElection orderly
  | castVote vote => exact sound.castVote vote
  | voteForSelf =>
    unfold VoteTracker.step voteForSelf
    dsimp only
    split
    · exact sound
    · exact sound.castVote _
  | acceptTerm term => exact sound.acceptTerm orderly
  | checkElection expired order => exact sound.checkElection expired order

omit sound in
theorem countVotesFor_le_card
    (registered : ∀ node ∈ election.votes.keys, node ∈ tracker.clusterNodes) (candidate : NodeId) :
    election.countVotesFor candidate ≤ (tracker.supporters election candidate).card := by
  let voters : List NodeId :=
    (election.votes.entries.filter fun entry => entry.2.candidate = candidate).map Sigma.fst
  have nodup : voters.Nodup := (filter_sublist.map _).nodup election.votes.nodupKeys
  have length : election.countVotesFor candidate = voters.length := by
    simp only [Election.countVotesFor, Table.values, filter_map, voters, length_map,
      Function.comp_def]
  rw [length, ← toFinset_card_of_nodup nodup]
  apply Finset.card_le_card
  intro node member
  obtain ⟨entry, chosen, rfl⟩ := mem_map.mp (mem_toFinset.mp member)
  obtain ⟨stored, same⟩ := mem_filter.mp chosen
  have found : election.votes.lookup entry.1 = some entry.2 := AList.mem_lookup_iff.mpr stored
  refine Finset.mem_filter.mpr ⟨registered _ (mem_map_of_mem stored), ?_⟩
  rw [found, Option.map_some, of_decide_eq_true same]

theorem backed_of_winner {winner : NodeId} {order : List NodeId}
    (current : tracker.currentElection = some election) (undecided : election.result = none)
    (registered : ∀ node ∈ election.votes.keys, node ∈ tracker.clusterNodes)
    (counted : election.getWinner tracker.quorumSize order = some winner) :
    Backed { tracker.conclude election .won with currentLeader := some winner } winner := by
  refine ⟨_, rfl, ?_, sound.term election current undecided⟩
  have found := find?_some counted
  have enough : tracker.quorumSize ≤ election.countVotesFor winner :=
    of_decide_eq_true (Bool.and_eq_true_iff.mp found).2
  have supported := countVotesFor_le_card registered winner
  rw [quorumSize, sound.fixedQuorum, Option.getD_none] at enough
  change tracker.clusterNodes.card < 2 * (tracker.supporters election winner).card
  omega

/-- The leader that a call names is backed. -/
def Justified (overflowChecks : Bool) (tracker : VoteTracker) (call : VoteCall) : Prop :=
  ∀ expired order, call = .checkElection expired order → ∀ candidate,
    tracker.leader ≠ some candidate →
    (tracker.step overflowChecks call).leader = some candidate →
    (tracker.step overflowChecks call).Backed candidate

theorem Sound.justified {call : VoteCall} (orderly : Orderly overflowChecks tracker call) :
    Justified overflowChecks tracker call := by
  rintro expired order rfl candidate before elected
  simp only [VoteTracker.step] at elected ⊢
  obtain same | ⟨election, current, undecided, ⟨result, same⟩ | ⟨winner, counted, same⟩⟩ :=
    tracker.checkElection_cases expired order
  · rw [same] at elected
    exact absurd elected before
  · rw [same] at elected
    exact absurd elected before
  · rw [same] at elected ⊢
    obtain rfl := Option.some.inj elected
    exact backed_of_winner sound current undecided (orderly election current undecided) counted

end

theorem Sound.new (nodeId : NodeId) : (VoteTracker.new nodeId).Sound where
  fixedQuorum := rfl
  term _ current := by cases current

/-- **A leader is backed by a majority of the current term.** In every run in which votes are
counted only while all voters are registered and the term does not move during an election, each
check that names a leader counts the votes of more than half of the registered nodes. -/
theorem leader_backed (overflowChecks : Bool) (nodeId : NodeId) {calls : List VoteCall}
    (orderly : Run.Guarded (step overflowChecks) (Orderly overflowChecks) (new nodeId) calls) :
    Run.Guarded (step overflowChecks) (Justified overflowChecks) (new nodeId) calls :=
  Run.guarded_imp Sound (fun _ _ sound => sound.justified) (fun _ call sound => sound.step call)
    (.new nodeId) orderly

/-- Two of three nodes vote for the first one. -/
def sampleCalls : List VoteCall :=
  [.registerNode 1, .registerNode 2, .registerNode 3, .startElection, .voteForSelf,
    .castVote ⟨2, 1, 1, 1⟩, .checkElection false [1]]

/-- The leader of this election is backed. -/
theorem leader_backed_sample : (Run.after (step true) (new 1) sampleCalls).Backed 1 := by
  have orderly : Run.Guarded (step true) (Orderly true) (new 1) sampleCalls := by decide
  obtain ⟨-, -, -, -, -, -, checked, -⟩ := leader_backed true 1 orderly
  exact checked false [1] rfl 1 (by decide) (by decide)

/-- Two votes of nodes that are not registered elect a leader among three other nodes. And an
election goes on after the term has moved. -/
theorem leader_not_backed :
    (let tracker := Run.after (step true) (new 1)
      [.registerNode 1, .registerNode 2, .registerNode 3, .startElection,
        .castVote ⟨8, 1, 7, 1⟩, .castVote ⟨9, 1, 7, 1⟩, .checkElection false [7]]
     tracker.leader = some 7 ∧ ¬ tracker.Backed 7) ∧
    (let tracker := Run.after (step true) (new 1)
      [.registerNode 1, .startElection, .voteForSelf, .acceptTerm 5, .checkElection false [1]]
     tracker.leader = some 1 ∧ ¬ tracker.Backed 1) := by
  decide

end VoteTracker

end Warp.Store
