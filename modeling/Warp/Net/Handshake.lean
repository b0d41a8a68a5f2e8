import Warp.Foundation.Run
import Warp.Net.FrameCodec

/-! # The handshake

The bytes of either direction arrive in chunks of any size, in any interleaving. When client and
server have negotiated, each did so with the capabilities of the other (`Session.progress_after`);
their parameters are equal exactly if the lists of algorithms have the same first common entry in
both orders, or none (`Session.params_agree_iff`).
-/

namespace Warp.Net

open List

inductive ProtocolState where
  | initial | helloExchanged | negotiated
  | planned | transferring | verifying | done | error
  deriving DecidableEq

structure NegotiatedParams where
  compression : String
  hash : String
  chunkSize : UInt32
  parallelStreams : UInt32
  useGpu : Bool
  useEncryption : Bool
  useDedup : Bool
  deriving DecidableEq

def NegotiatedParams.negotiate (own remote : Capabilities) : NegotiatedParams where
  compression := (own.compression.find? (remote.compression.contains ·)).getD "none"
  hash := (own.hashes.find? (remote.hashes.contains ·)).getD "blake3"
  chunkSize := min own.maxChunkSize remote.maxChunkSize
  parallelStreams := min own.maxStreams remote.maxStreams
  useGpu := own.gpu.isSome && remote.gpu.isSome
  useEncryption := own.supportsEncryption && remote.supportsEncryption
  useDedup := own.supportsDedup && remote.supportsDedup

/-- Two lists have no entry in common, or one that comes before all other common entries in
both of them. -/
def SameFirstShared {Name : Type} (left right : List Name) : Prop :=
  (∀ name ∈ left, name ∉ right) ∨
    ∃ name front back front' back', left = front ++ name :: back ∧
      right = front' ++ name :: back' ∧
      (∀ other ∈ front, other ∉ right) ∧ ∀ other ∈ front', other ∉ left

theorem find_shared_eq_some_iff {left right : List String} {name : String} :
    left.find? (right.contains ·) = some name ↔
      name ∈ right ∧ ∃ front back, left = front ++ name :: back ∧
        ∀ other ∈ front, other ∉ right := by
  rw [find?_eq_some_iff_append]
  simp

theorem find_shared_eq_none_iff {left right : List String} :
    left.find? (right.contains ·) = none ↔ ∀ name ∈ left, name ∉ right := by
  rw [find?_eq_none]
  simp

theorem find_shared_eq_iff (left right : List String) (default : String) :
    (left.find? (right.contains ·)).getD default = (right.find? (left.contains ·)).getD default ↔
      SameFirstShared left right := by
  cases found : left.find? (right.contains ·) with
  | none =>
    have none := find_shared_eq_none_iff.mp found
    have back : right.find? (left.contains ·) = .none :=
      find_shared_eq_none_iff.mpr fun name inRight inLeft => none name inLeft inRight
    rw [back]
    exact ⟨fun _ => .inl none, fun _ => rfl⟩
  | some name =>
    obtain ⟨inRight, front, back, split, first⟩ := find_shared_eq_some_iff.mp found
    have inLeft : name ∈ left := split ▸ mem_append_right _ mem_cons_self
    cases found' : right.find? (left.contains ·) with
    | none => exact absurd inLeft (find_shared_eq_none_iff.mp found' name inRight)
    | some name' =>
      obtain ⟨inLeft', front', back', split', first'⟩ := find_shared_eq_some_iff.mp found'
      change name = name' ↔ _
      constructor
      · rintro rfl
        exact .inr ⟨name, front, back, front', back', split, split', first, first'⟩
      · rintro (none | ⟨shared, front, back, front', back', split, split', first, first'⟩)
        · exact absurd inRight (none name inLeft)
        · have both : left.find? (right.contains ·) = some shared ∧
              right.find? (left.contains ·) = some shared := by
            constructor
            · refine find_shared_eq_some_iff.mpr ⟨?_, front, back, split, first⟩
              exact split' ▸ mem_append_right _ mem_cons_self
            · refine find_shared_eq_some_iff.mpr ⟨?_, front', back', split', first'⟩
              exact split ▸ mem_append_right _ mem_cons_self
          rw [found, found', Option.some.injEq, Option.some.injEq] at both
          rw [both.1, both.2]

theorem min_uint32_comm (left right : UInt32) : min left right = min right left := by
  change (if left ≤ right then left else right) = if right ≤ left then right else left
  split <;> split
  · rename_i le ge
    exact UInt32.le_antisymm le ge
  · rfl
  · rfl
  · rename_i notLe notGe
    exact absurd (UInt32.le_total left right) (by simp [notLe, notGe])

/-- Swapping the points of view changes nothing but the choice of algorithms. -/
theorem NegotiatedParams.negotiate_comm_iff (client server : Capabilities) :
    negotiate client server = negotiate server client ↔
      SameFirstShared client.compression server.compression ∧
        SameFirstShared client.hashes server.hashes := by
  rw [← find_shared_eq_iff _ _ "none", ← find_shared_eq_iff _ _ "blake3"]
  constructor
  · intro same
    exact ⟨congrArg compression same, congrArg hash same⟩
  · rintro ⟨compression, hash⟩
    unfold negotiate
    rw [compression, hash, min_uint32_comm, min_uint32_comm client.maxStreams, Bool.and_comm,
      Bool.and_comm client.supportsEncryption, Bool.and_comm client.supportsDedup]

def protocolVersion : UInt32 := 1

inductive Position where
  | awaitHello
  | awaitCapabilities
  | returned (result : Outcome Error NegotiatedParams)

/-- A handshake that has not returned. -/
def Position.Waits : Position → Prop
  | .awaitHello | .awaitCapabilities => True
  | .returned _ => False

/-- One end of a connection, with the buffer of the frame it is receiving. -/
structure Peer where
  localCaps : Capabilities
  state : ProtocolState
  remoteCaps : Option Capabilities
  params : Option NegotiatedParams
  position : Position
  pooledBuf : Bytes

inductive Role where
  | client
  | server

namespace Peer

variable (wire : Serialization)

def waiting (caps : Capabilities) (state : ProtocolState) (position : Position)
    (pooledBuf : Bytes) : Peer :=
  ⟨caps, state, none, none, position, pooledBuf⟩

def fail (peer : Peer) (failure : Error) : Peer :=
  { peer with position := .returned (.error failure) }

def sending (peer : Peer) (frame : Frame) (next : Peer → Peer) : Peer × Bytes :=
  match frame.encode wire [] with
  | .error failure => (peer.fail failure, [])
  | .ok encoded => (next peer, encoded)

def conclude (remote : Capabilities) (peer : Peer) : Peer :=
  let params := NegotiatedParams.negotiate peer.localCaps remote
  { peer with
    remoteCaps := some remote, params := some params, state := .negotiated
    position := .returned (.ok params) }

def expectHello : Frame → Except Error Unit
  | .hello version =>
    if version ≠ protocolVersion then
      .error (.protocol s!"Unsupported protocol version: {version.toNat}")
    else .ok ()
  | _ => .error (.protocol "Expected HELLO frame")

def expectCapabilities : Frame → Except Error Capabilities
  | .capabilities caps => .ok caps
  | _ => .error (.protocol "Expected CAPABILITIES frame")

/-- What `handshake` and `handshake_server` do with the greeting: the client goes on to its
capabilities, the server answers it first. -/
def receiveHello (role : Role) (peer : Peer) (frame : Frame) : Peer × Bytes :=
  match expectHello frame with
  | .error failure => (peer.fail failure, [])
  | .ok () =>
    match role with
    | .client =>
      sending wire { peer with state := .helloExchanged } (.capabilities peer.localCaps)
        fun peer => { peer with position := .awaitCapabilities }
    | .server =>
      sending wire peer (.hello protocolVersion) fun peer =>
        { peer with state := .helloExchanged, position := .awaitCapabilities }

/-- What they do with the capabilities: the server sends its own ones. -/
def receiveCapabilities (role : Role) (peer : Peer) (frame : Frame) : Peer × Bytes :=
  match expectCapabilities frame with
  | .error failure => (peer.fail failure, [])
  | .ok remote =>
    match role with
    | .client => (peer.conclude remote, [])
    | .server => sending wire peer (.capabilities peer.localCaps) (conclude remote)

def resume (role : Role) (peer : Peer) (frame : Frame) : Peer × Bytes :=
  match peer.position with
  | .awaitHello => receiveHello wire role peer frame
  | .awaitCapabilities => receiveCapabilities wire role peer frame
  | .returned _ => (peer, [])

/-- Read a chunk in `recv_frame`, and go on with the frame if there is one. The buffer is
dropped with what it holds behind the frame. -/
def read (role : Role) (peer : Peer) (chunk : Bytes) : Peer × Bytes :=
  match Frame.decode wire (peer.pooledBuf ++ chunk) with
  | .error failure => (peer.fail failure, [])
  | .panic => ({ peer with position := .returned .panic }, [])
  | .ok (none, pooledBuf) => ({ peer with pooledBuf }, [])
  | .ok (some frame, _) => resume wire role { peer with pooledBuf := [] } frame

end Peer

structure Session where
  client : Peer
  server : Peer
  toServer : Bytes
  toClient : Bytes

/-- What may happen next: a peer that is receiving gets the next bytes that are on the way to
it, or its connection fails. -/
inductive Event where
  | clientReads (count : ℕ)
  | serverReads (count : ℕ)
  | clientLost (failure : Error)
  | serverLost (failure : Error)

namespace Session

variable (wire : Serialization)

def start (clientCaps serverCaps : Capabilities) : Session :=
  let (client, greeting) := Peer.sending wire (.waiting clientCaps .initial .awaitHello [])
    (.hello protocolVersion) id
  ⟨client, .waiting serverCaps .initial .awaitHello [], greeting, []⟩

def step (session : Session) (event : Event) : Session :=
  match event with
  | .clientReads count =>
    match session.client.position with
    | .returned _ => session
    | _ =>
      let (client, sent) := session.client.read wire .client (session.toClient.take count)
      { session with
        client, toClient := session.toClient.drop count, toServer := session.toServer ++ sent }
  | .serverReads count =>
    match session.server.position with
    | .returned _ => session
    | _ =>
      let (server, sent) := session.server.read wire .server (session.toServer.take count)
      { session with
        server, toServer := session.toServer.drop count, toClient := session.toClient ++ sent }
  | .clientLost failure =>
    match session.client.position with
    | .returned _ => session
    | _ => { session with client := session.client.fail failure }
  | .serverLost failure =>
    match session.server.position with
    | .returned _ => session
    | _ => { session with server := session.server.fail failure }

variable {wire} {clientCaps serverCaps : Capabilities}

open Warp.Net.Frame (Encoded)

/-- A peer whose handshake has returned an error. -/
def Failed (peer : Peer) : Prop :=
  (∃ failure, peer.position = .returned (.error failure)) ∧ peer.state ≠ .negotiated

variable (wire clientCaps serverCaps) in
/-- The phases of a handshake. In each of them one frame is on the way: what its receiver has
of it and what is still to come are together its bytes. -/
inductive Progress : Session → Prop
  | greeting {part rest : Bytes} (frame : Encoded wire (.hello protocolVersion) (part ++ rest)) :
      Progress ⟨.waiting clientCaps .initial .awaitHello [],
        .waiting serverCaps .initial .awaitHello part, rest, []⟩
  | answer {part rest : Bytes} (frame : Encoded wire (.hello protocolVersion) (part ++ rest)) :
      Progress ⟨.waiting clientCaps .initial .awaitHello part,
        .waiting serverCaps .helloExchanged .awaitCapabilities [], [], rest⟩
  | clientCapabilities {part rest : Bytes}
      (frame : Encoded wire (.capabilities clientCaps) (part ++ rest)) :
      Progress ⟨.waiting clientCaps .helloExchanged .awaitCapabilities [],
        .waiting serverCaps .helloExchanged .awaitCapabilities part, rest, []⟩
  | serverCapabilities {part rest : Bytes}
      (frame : Encoded wire (.capabilities serverCaps) (part ++ rest)) :
      Progress ⟨.waiting clientCaps .helloExchanged .awaitCapabilities part,
        (Peer.waiting serverCaps .helloExchanged .awaitCapabilities []).conclude clientCaps,
        [], rest⟩
  | negotiated (toServer toClient : Bytes) :
      Progress ⟨(Peer.waiting clientCaps .helloExchanged .awaitCapabilities []).conclude serverCaps,
        (Peer.waiting serverCaps .helloExchanged .awaitCapabilities []).conclude clientCaps,
        toServer, toClient⟩
  | clientFailed {session : Session} (failed : Failed session.client) : Progress session
  | serverFailed {session : Session} (failed : Failed session.server) : Progress session

variable (caps : Capabilities) (state : ProtocolState) (position : Position)
variable (wire) in
theorem read_nothing (role : Role) (count : ℕ) :
    (Peer.waiting caps state position []).read wire role (List.take count []) =
      (.waiting caps state position [], []) := by
  rw [take_nil]
  rfl

/-- A chunk of the frame that is on the way completes the frame, or is kept. -/
theorem read_chunk (roundTrips : wire.RoundTrips) {frame : Frame} {part rest : Bytes}
    (isEncoded : Encoded wire frame (part ++ rest)) (role : Role) (count : ℕ) :
    ((Peer.waiting caps state position part).read wire role (rest.take count) =
        (Peer.waiting caps state position []).resume wire role frame ∧ rest.drop count = []) ∨
      ((Peer.waiting caps state position part).read wire role (rest.take count) =
        (.waiting caps state position (part ++ rest.take count), []) ∧
        Encoded wire frame ((part ++ rest.take count) ++ rest.drop count)) := by
  have whole : (part ++ rest.take count) ++ rest.drop count = part ++ rest := by
    rw [append_assoc, take_append_drop]
  rw [← whole] at isEncoded
  by_cases complete : rest.drop count = []
  · rw [complete, append_nil] at isEncoded
    have decoded := isEncoded.decode_append roundTrips []
    rw [append_nil] at decoded
    refine .inl ⟨?_, complete⟩
    simp only [Peer.read, Peer.waiting, decoded]
  · refine .inr ⟨?_, isEncoded⟩
    simp only [Peer.read, Peer.waiting, isEncoded.decode_part complete]

variable {caps state position} {count : ℕ}
variable (wire) in
/-- What sending a frame leads to: the frame is on its way, or the peer has failed. -/
theorem sending_cases (peer : Peer) (frame : Frame) (next : Peer → Peer) :
    (∃ encoded, Encoded wire frame encoded ∧ peer.sending wire frame next = (next peer, encoded)) ∨
      ∃ failure, peer.sending wire frame next = (peer.fail failure, []) := by
  cases encodes : frame.encode wire [] with
  | error failure => exact .inr ⟨failure, by rw [Peer.sending, encodes]⟩
  | ok written =>
    obtain ⟨encoded, isEncoded⟩ := Frame.encoded_of_encode encodes
    obtain rfl : encoded = written :=
      Except.ok.inj ((isEncoded.encode_eq []).symm.trans encodes)
    exact .inl ⟨encoded, isEncoded, by rw [Peer.sending, encodes]⟩

theorem failed_fail {peer : Peer} (failure : Error) (early : peer.state ≠ .negotiated) :
    Failed (peer.fail failure) :=
  ⟨⟨failure, rfl⟩, early⟩

/-- A side that has failed stays as it is. -/
theorem step_client_of_failed {session : Session} (failed : Failed session.client)
    (event : Event) : (step wire session event).client = session.client := by
  obtain ⟨⟨failure, returned⟩, -⟩ := failed
  cases event with
  | clientReads | clientLost => rw [step, returned]
  | serverReads | serverLost =>
    rw [step]
    split <;> rfl

theorem step_server_of_failed {session : Session} (failed : Failed session.server)
    (event : Event) : (step wire session event).server = session.server := by
  obtain ⟨⟨failure, returned⟩, -⟩ := failed
  cases event with
  | serverReads | serverLost => rw [step, returned]
  | clientReads | clientLost =>
    rw [step]
    split <;> rfl

theorem Progress.step_of_clientFailed {session : Session} (failed : Failed session.client)
    (event : Event) : Progress wire clientCaps serverCaps (step wire session event) :=
  .clientFailed (by rwa [step_client_of_failed failed])

theorem Progress.step_of_serverFailed {session : Session} (failed : Failed session.server)
    (event : Event) : Progress wire clientCaps serverCaps (step wire session event) :=
  .serverFailed (by rwa [step_server_of_failed failed])

theorem step_clientReads {part toServer toClient sent : Bytes} {client server : Peer}
    (reads : (Peer.waiting caps state position part).read wire .client (toClient.take count) =
      (client, sent)) (waits : position.Waits) :
    step wire ⟨.waiting caps state position part, server, toServer, toClient⟩
      (.clientReads count) = ⟨client, server, toServer ++ sent, toClient.drop count⟩ := by
  cases position with
  | returned => exact waits.elim
  | awaitHello | awaitCapabilities =>
    change Session.mk (Peer.read wire .client (.waiting ..) _).1 server
      (toServer ++ (Peer.read wire .client (.waiting ..) _).2) _ = _
    rw [reads]

theorem step_serverReads {part toServer toClient sent : Bytes} {client server : Peer}
    (reads : (Peer.waiting caps state position part).read wire .server (toServer.take count) =
      (server, sent)) (waits : position.Waits) :
    step wire ⟨client, .waiting caps state position part, toServer, toClient⟩
      (.serverReads count) = ⟨client, server, toServer.drop count, toClient ++ sent⟩ := by
  cases position with
  | returned => exact waits.elim
  | awaitHello | awaitCapabilities =>
    change Session.mk client (Peer.read wire .server (.waiting ..) _).1 _
      (toClient ++ (Peer.read wire .server (.waiting ..) _).2) = _
    rw [reads]

section
variable (roundTrips : wire.RoundTrips) {session : Session}
  (progress : Progress wire clientCaps serverCaps session)
include roundTrips progress

theorem Progress.step_clientReads (count : ℕ) :
    Progress wire clientCaps serverCaps (step wire session (.clientReads count)) := by
  cases progress with
  | greeting frame =>
    have idle := read_nothing wire clientCaps .initial .awaitHello .client count
    rw [Session.step_clientReads idle trivial, drop_nil, append_nil]
    exact .greeting frame
  | clientCapabilities frame =>
    have idle := read_nothing wire clientCaps .helloExchanged .awaitCapabilities .client count
    rw [Session.step_clientReads idle trivial, drop_nil, append_nil]
    exact .clientCapabilities frame
  | answer frame =>
    rcases read_chunk clientCaps .initial .awaitHello roundTrips frame .client count with
      ⟨reads, last⟩ | ⟨reads, frame⟩
    · rcases sending_cases wire (Peer.waiting clientCaps .helloExchanged .awaitHello [])
        (.capabilities clientCaps) fun peer => { peer with position := .awaitCapabilities } with
        ⟨encoded, isEncoded, sends⟩ | ⟨failure, sends⟩
      · rw [Session.step_clientReads (reads.trans sends) trivial, last]
        exact .clientCapabilities isEncoded
      · rw [Session.step_clientReads (reads.trans sends) trivial]
        exact .clientFailed (failed_fail failure nofun)
    · rw [Session.step_clientReads reads trivial]
      exact .answer frame
  | serverCapabilities frame =>
    rcases read_chunk clientCaps .helloExchanged .awaitCapabilities roundTrips frame .client
      count with ⟨reads, last⟩ | ⟨reads, frame⟩
    · rw [Session.step_clientReads reads trivial]
      exact .negotiated _ _
    · rw [Session.step_clientReads reads trivial]
      exact .serverCapabilities frame
  | negotiated => exact .negotiated _ _
  | clientFailed failed => exact .step_of_clientFailed failed _
  | serverFailed failed => exact .step_of_serverFailed failed _

theorem Progress.step_serverReads (count : ℕ) :
    Progress wire clientCaps serverCaps (step wire session (.serverReads count)) := by
  cases progress with
  | answer frame =>
    have idle := read_nothing wire serverCaps .helloExchanged .awaitCapabilities .server count
    rw [Session.step_serverReads idle trivial, drop_nil, append_nil]
    exact .answer frame
  | greeting frame =>
    rcases read_chunk serverCaps .initial .awaitHello roundTrips frame .server count with
      ⟨reads, last⟩ | ⟨reads, frame⟩
    · rcases sending_cases wire (Peer.waiting serverCaps .initial .awaitHello [])
        (.hello protocolVersion) fun peer =>
          { peer with state := .helloExchanged, position := .awaitCapabilities } with
        ⟨encoded, isEncoded, sends⟩ | ⟨failure, sends⟩
      · rw [Session.step_serverReads (reads.trans sends) trivial, last]
        exact .answer isEncoded
      · rw [Session.step_serverReads (reads.trans sends) trivial]
        exact .serverFailed (failed_fail failure nofun)
    · rw [Session.step_serverReads reads trivial]
      exact .greeting frame
  | clientCapabilities frame =>
    rcases read_chunk serverCaps .helloExchanged .awaitCapabilities roundTrips frame .server
      count with ⟨reads, last⟩ | ⟨reads, frame⟩
    · rcases sending_cases wire
        (Peer.waiting serverCaps .helloExchanged .awaitCapabilities [])
        (.capabilities serverCaps) (Peer.conclude clientCaps) with
        ⟨encoded, isEncoded, sends⟩ | ⟨failure, sends⟩
      · rw [Session.step_serverReads (reads.trans sends) trivial, last]
        exact .serverCapabilities isEncoded
      · rw [Session.step_serverReads (reads.trans sends) trivial]
        exact .serverFailed (failed_fail failure nofun)
    · rw [Session.step_serverReads reads trivial]
      exact .clientCapabilities frame
  | serverCapabilities frame => exact .serverCapabilities frame
  | negotiated => exact .negotiated _ _
  | clientFailed failed => exact .step_of_clientFailed failed _
  | serverFailed failed => exact .step_of_serverFailed failed _

theorem Progress.step (event : Event) :
    Progress wire clientCaps serverCaps (session.step wire event) := by
  cases event with
  | clientReads count => exact progress.step_clientReads roundTrips count
  | serverReads count => exact progress.step_serverReads roundTrips count
  | clientLost failure =>
    cases progress with
    | greeting | answer | clientCapabilities | serverCapabilities =>
      exact .clientFailed (failed_fail failure nofun)
    | negotiated => exact .negotiated _ _
    | clientFailed failed => exact .step_of_clientFailed failed _
    | serverFailed failed => exact .step_of_serverFailed failed _
  | serverLost failure =>
    cases progress with
    | greeting | answer | clientCapabilities =>
      exact .serverFailed (failed_fail failure nofun)
    | serverCapabilities frame => exact .serverCapabilities frame
    | negotiated => exact .negotiated _ _
    | clientFailed failed => exact .step_of_clientFailed failed _
    | serverFailed failed => exact .step_of_serverFailed failed _

end

theorem progress_start :
    Progress wire clientCaps serverCaps (start wire clientCaps serverCaps) := by
  rcases sending_cases wire (Peer.waiting clientCaps .initial .awaitHello [])
    (.hello protocolVersion) id with ⟨encoded, isEncoded, sends⟩ | ⟨failure, sends⟩
  · rw [start, sends]
    exact .greeting isEncoded
  · rw [start, sends]
    exact .clientFailed (failed_fail failure nofun)

theorem progress_after (roundTrips : wire.RoundTrips) (events : List Event) :
    Progress wire clientCaps serverCaps
      (Run.after (step wire) (start wire clientCaps serverCaps) events) :=
  Run.invariant_of_step _ (fun _ event progress => progress.step roundTrips event) progress_start
    events

/-- When both handshakes have negotiated, the parameters are the same exactly if in the lists
of compression and of hash algorithms the same shared algorithm comes first on both sides, or
none is shared. -/
theorem params_agree_iff (wire : Serialization) (roundTrips : wire.RoundTrips)
    (clientCaps serverCaps : Capabilities) (events : List Event)
    (client : (Run.after (step wire) (start wire clientCaps serverCaps) events).client.state =
      .negotiated)
    (server : (Run.after (step wire) (start wire clientCaps serverCaps) events).server.state =
      .negotiated) :
    ∃ clientParams serverParams,
      (Run.after (step wire) (start wire clientCaps serverCaps) events).client.params =
        some clientParams ∧
      (Run.after (step wire) (start wire clientCaps serverCaps) events).server.params =
        some serverParams ∧
      (clientParams = serverParams ↔
        SameFirstShared clientCaps.compression serverCaps.compression ∧
          SameFirstShared clientCaps.hashes serverCaps.hashes) := by
  have progress : Progress wire clientCaps serverCaps _ := progress_after roundTrips events
  generalize Run.after (step wire) (start wire clientCaps serverCaps) events = session at *
  cases progress with
  | negotiated =>
    exact ⟨_, _, rfl, rfl, NegotiatedParams.negotiate_comm_iff clientCaps serverCaps⟩
  | greeting | answer | clientCapabilities | serverCapabilities => contradiction
  | clientFailed failed => exact absurd client failed.2
  | serverFailed failed => exact absurd server failed.2

/-- Two nodes that list the same algorithms in opposite orders each choose their own favourite. -/
theorem preferences_disagree :
    let wire := Frame.sampleSerialization
    let final := Run.after (step wire) (start wire Frame.sampleCaps Frame.otherCaps)
      [.serverReads 12, .clientReads 12, .serverReads 50, .clientReads 50]
    final.client.state = .negotiated ∧ final.server.state = .negotiated ∧
      final.client.params.map (·.compression) = some "zstd" ∧
      final.server.params.map (·.compression) = some "lz4" := by
  decide +kernel

/-- Two nodes of one kind, with every frame in two chunks. -/
theorem params_agree_iff_alike :
    let wire := Frame.sampleSerialization
    let final := Run.after (step wire) (start wire Frame.sampleCaps Frame.sampleCaps)
      [.serverReads 7, .serverReads 7, .clientReads 8, .clientReads 9, .serverReads 30,
        .serverReads 30, .clientReads 1, .clientReads 40]
    ∃ clientParams serverParams, final.client.params = some clientParams ∧
      final.server.params = some serverParams ∧ clientParams = serverParams := by
  have agree := params_agree_iff Frame.sampleSerialization Frame.sampleSerialization_roundTrips
    Frame.sampleCaps Frame.sampleCaps
    [.serverReads 7, .serverReads 7, .clientReads 8, .clientReads 9, .serverReads 30,
      .serverReads 30, .clientReads 1, .clientReads 40] (by decide +kernel) (by decide +kernel)
  obtain ⟨clientParams, serverParams, clientHas, serverHas, same⟩ := agree
  refine ⟨clientParams, serverParams, clientHas, serverHas, same.mpr ⟨.inr ?_, .inr ?_⟩⟩
  · exact ⟨"zstd", [], ["lz4"], [], ["lz4"], rfl, rfl, nofun, nofun⟩
  · exact ⟨"blake3", [], [], [], [], rfl, rfl, nofun, nofun⟩

end Session

end Warp.Net
