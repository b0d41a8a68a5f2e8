import Warp.Noise.Tunnel

/-! # Two tunnels and what they send each other

The packets that the two ends of a link send can be lost, repeated and reordered. Both sessions
of an end have its tunnel index, so a packet goes to the current session of the receiver,
whatever session it was made under: it is decapsulated exactly if that is the session it was
made under (`Link.decapsulated_iff`).
-/

namespace Warp.Noise

open List Bytes Option Nat

section Packets
variable {front rest : Bytes} {position : ℕ} (sender receiver : UInt32)

theorem indexAt_append (here : position = front.length) (index : UInt32) :
    indexAt (front ++ (Bytes.leBytes 4 index.toNat ++ rest)) position = index := by
  rw [indexAt, slice_append_mid _ _ _ here (by rw [here, length_leBytes]),
    leValue_leBytes _ _ index.toNat_lt, UInt32.ofNat_toNat]

theorem counterAt_append (here : position = front.length) (counter : UInt64) :
    counterAt (front ++ (Bytes.leBytes 8 counter.toNat ++ rest)) position = counter := by
  rw [counterAt, slice_append_mid _ _ _ here (by rw [here, length_leBytes]),
    leValue_leBytes _ _ counter.toNat_lt, UInt64.ofNat_toNat]

/-- The packet names its sender and its receiver as its type has it. -/
structure Addressed (sender receiver : UInt32) (packet : Bytes) : Prop where
  initiation : messageByte packet = 1 → indexAt packet 4 = sender
  response : messageByte packet = 2 → indexAt packet 4 = sender ∧ indexAt packet 8 = receiver
  data : messageByte packet = 4 → indexAt packet 4 = receiver

theorem addressed_initiation :
    Addressed sender receiver ([1, 0, 0, 0] ++ (Bytes.leBytes 4 sender.toNat ++ rest)) where
  initiation _ := indexAt_append rfl sender
  response other := absurd other (show (1 : UInt8) ≠ 2 by decide)
  data other := absurd other (show (1 : UInt8) ≠ 4 by decide)

theorem addressed_response :
    Addressed sender receiver ([2, 0, 0, 0] ++ (Bytes.leBytes 4 sender.toNat ++
      (Bytes.leBytes 4 receiver.toNat ++ rest))) where
  initiation other := absurd other (show (2 : UInt8) ≠ 1 by decide)
  response _ := by
    refine ⟨indexAt_append rfl sender, ?_⟩
    rw [← append_assoc]
    exact indexAt_append (by simp) receiver
  data other := absurd other (show (2 : UInt8) ≠ 4 by decide)

variable (receiver : UInt32) (counter : UInt64) (ciphertext : Bytes)

theorem indexAt_dataPacket : indexAt (dataPacket receiver counter ciphertext) 4 = receiver :=
  indexAt_append rfl receiver

theorem addressed_data (sender : UInt32) :
    Addressed sender receiver (dataPacket receiver counter ciphertext) where
  initiation other := absurd other (show (4 : UInt8) ≠ 1 by decide)
  response other := absurd other (show (4 : UInt8) ≠ 2 by decide)
  data _ := indexAt_dataPacket receiver counter ciphertext

theorem counterAt_dataPacket : counterAt (dataPacket receiver counter ciphertext) 8 = counter := by
  rw [dataPacket, ← append_assoc]
  exact counterAt_append (by simp) counter

theorem drop_dataPacket : (dataPacket receiver counter ciphertext).drop 16 = ciphertext := by
  rw [dataPacket, ← append_assoc, ← append_assoc]
  exact drop_left' (by simp)

theorem length_dataPacket :
    (dataPacket receiver counter ciphertext).length = 16 + ciphertext.length := by
  simp [dataPacket]
  omega

end Packets

namespace Tunn

/-- The current session or the previous one. -/
def Holds (tunnel : Tunn) (session : TransportSession) : Prop :=
  tunnel.currentSession = some session ∨ tunnel.previousSession = some session

/-- The indices of a tunnel and its sessions are those of its link, and there is a previous
session only behind a current one. -/
structure Settled (own peer : UInt32) (tunnel : Tunn) : Prop where
  index : tunnel.tunnelIndex = own
  sessions : ∀ session, tunnel.Holds session → session.ourIndex = own ∧ session.peerIndex = peer
  next : tunnel.nextSession = none
  idle : tunnel.currentSession = none → tunnel.previousSession = none

/-- What a call may send: packets to the peer, with counters it advances over. -/
structure Emits (own peer : UInt32) (before after : UInt64) (packet : Bytes) : Prop where
  addressed : Addressed own peer packet
  counter : messageByte packet = 4 →
    before.toNat ≤ (counterAt packet 8).toNat ∧ (counterAt packet 8).toNat < after.toNat

structure Progress (own peer : UInt32) (before : Tunn) (outcome : TunnResult × Tunn) : Prop where
  settled : outcome.2.Settled own peer
  counter : before.txCounter.toNat ≤ outcome.2.txCounter.toNat
  emits : ∀ packet, outcome.1 = .writeToNetwork packet →
    Emits own peer before.txCounter outcome.2.txCounter packet

/-- The counter has not reached its last value. -/
def HasRoom (tunnel : Tunn) : Prop := tunnel.txCounter.toNat + 1 < 2 ^ 64 deriving Decidable

variable {own peer : UInt32} {tunnel : Tunn} (crypto : Primitives)

theorem toNat_add_one (room : tunnel.HasRoom) :
    (tunnel.txCounter + 1).toNat = tunnel.txCounter.toNat + 1 := by
  unfold HasRoom at room
  rw [UInt64.toNat_add]
  exact mod_eq_of_lt room

section
variable (settled : tunnel.Settled own peer)
include settled

variable (handshake : Handshake)

theorem Settled.of_handshake : Settled own peer { tunnel with handshake } :=
  ⟨settled.index, settled.sessions, settled.next, settled.idle⟩

theorem Settled.of_counter (txCounter : UInt64) : Settled own peer { tunnel with txCounter } :=
  ⟨settled.index, settled.sessions, settled.next, settled.idle⟩

theorem Settled.renew (sendKey recvKey : Key) (now : ℕ) :
    (tunnel.renew (.new sendKey recvKey own peer now) now).Settled own peer where
  index := settled.index
  sessions session held := by
    rcases held with new | old
    · obtain rfl := some.inj new
      exact ⟨rfl, rfl⟩
    · exact settled.sessions session (.inl old)
  next := settled.next
  idle := nofun

theorem progress_err (failure : WireGuardError) :
    Progress own peer tunnel (.err failure, { tunnel with handshake }) :=
  ⟨settled.of_handshake handshake, le_refl _, nofun⟩

theorem progress_initiation (rest : Bytes) :
    Progress own peer tunnel
      (.writeToNetwork ([1, 0, 0, 0] ++ (Bytes.leBytes 4 tunnel.tunnelIndex.toNat ++ rest)),
        { tunnel with handshake }) := by
  refine ⟨settled.of_handshake handshake, le_refl _, ?_⟩
  rintro packet ⟨⟩
  rw [settled.index]
  exact ⟨addressed_initiation own peer, fun other => absurd other (show (1 : UInt8) ≠ 4 by decide)⟩

theorem formatHandshakeInitiation_progress (dst : Bytes) (moment : Moment) :
    Progress own peer tunnel (tunnel.formatHandshakeInitiation crypto dst moment) := by
  obtain ⟨handshake, -, ⟨failure, result⟩ | ⟨rest, result⟩⟩ :=
    tunnel.formatHandshakeInitiation_cases crypto dst moment
  · rw [result]
    exact progress_err settled handshake failure
  · rw [result]
    exact progress_initiation settled handshake rest

theorem encapsulate_progress (room : tunnel.HasRoom) (src dst : Bytes) (moment : Moment) :
    Progress own peer tunnel (tunnel.encapsulate crypto src dst moment) := by
  have advanced := toNat_add_one room
  rcases tunnel.encapsulate_cases crypto src dst moment with
    ⟨handshake, -, ⟨failure, result⟩ | ⟨-, rest, result⟩⟩ |
      ⟨session, active, ⟨failure, result⟩ | ⟨ciphertext, -, result⟩⟩
  · rw [result]
    exact progress_err settled handshake failure
  · rw [result]
    exact progress_initiation settled handshake rest
  · rw [result]
    exact ⟨settled.of_counter _, by simp only; omega, nofun⟩
  · rw [result]
    refine ⟨settled.of_counter _, by simp only; omega, ?_⟩
    rintro packet ⟨⟩
    have held := settled.sessions session (.inl (filter_eq_some_iff.mp active).1)
    rw [held.2]
    refine ⟨addressed_data peer _ _ own, fun _ => ?_⟩
    rw [counterAt_dataPacket]
    simp only
    omega

theorem serve_progress (room : tunnel.HasRoom) (request : Request) :
    Progress own peer tunnel (tunnel.serve crypto request) := by
  cases request with
  | formatHandshakeInitiation dst moment =>
    exact formatHandshakeInitiation_progress crypto settled dst moment
  | encapsulate src dst moment => exact encapsulate_progress crypto settled room src dst moment
  | updateTimers dst moment =>
    rw [serve]
    rcases tunnel.updateTimers_cases crypto dst moment with result | result | result
    · rw [result]
      exact encapsulate_progress crypto settled room [] dst moment
    · rw [result]
      exact formatHandshakeInitiation_progress crypto settled dst moment
    · rw [result]
      refine ⟨settled, le_refl _, ?_⟩
      intro packet written
      cases written

end

theorem formatHandshakeInitiation_holds_iff (dst : Bytes) (moment : Moment)
    (session : TransportSession) :
    (tunnel.formatHandshakeInitiation crypto dst moment).2.Holds session ↔
      tunnel.Holds session := by
  obtain ⟨handshake, -, ⟨failure, result⟩ | ⟨rest, result⟩⟩ :=
    tunnel.formatHandshakeInitiation_cases crypto dst moment <;>
  · rw [result]
    exact Iff.rfl

theorem encapsulate_holds_iff (src dst : Bytes) (moment : Moment) (session : TransportSession) :
    (tunnel.encapsulate crypto src dst moment).2.Holds session ↔ tunnel.Holds session := by
  rcases tunnel.encapsulate_cases crypto src dst moment with
    ⟨handshake, -, ⟨failure, result⟩ | ⟨-, rest, result⟩⟩ |
      ⟨session, active, ⟨failure, result⟩ | ⟨ciphertext, -, result⟩⟩ <;>
  · rw [result]
    exact Iff.rfl

theorem serve_holds_iff (request : Request) (session : TransportSession) :
    (tunnel.serve crypto request).2.Holds session ↔ tunnel.Holds session := by
  cases request with
  | formatHandshakeInitiation dst moment =>
    exact formatHandshakeInitiation_holds_iff crypto dst moment session
  | encapsulate src dst moment => exact encapsulate_holds_iff crypto src dst moment session
  | updateTimers dst moment =>
    rw [serve]
    rcases tunnel.updateTimers_cases crypto dst moment with result | result | result
    · rw [result, encapsulate_holds_iff]
    · rw [result, formatHandshakeInitiation_holds_iff]
    · rw [result]

/-- A session is new, or one from before that at most checked the packet's counter. -/
def Descends (before : Tunn) (packet : Bytes) (session : TransportSession) : Prop :=
  session.toSession = Session.new ∨ ∃ old, before.Holds old ∧
    (session.toSession = old.toSession ∨ messageByte packet = 4 ∧
      session.toSession = (old.checkAndUpdateReplay (counterAt packet 8)).2)

structure Receives (own peer : UInt32) (before : Tunn) (packet : Bytes)
    (outcome : TunnResult × Tunn) : Prop extends Progress own peer before outcome where
  descends : ∀ session, outcome.2.Holds session → before.Descends packet session

variable {packet : Bytes} {session : TransportSession}

theorem descends_of_holds (held : tunnel.Holds session) : tunnel.Descends packet session :=
  .inr ⟨session, held, .inl rfl⟩

variable (settled : tunnel.Settled own peer)
include settled

theorem receives_err (packet : Bytes) (handshake : Handshake) (failure : WireGuardError) :
    Receives own peer tunnel packet (.err failure, { tunnel with handshake }) :=
  ⟨progress_err settled handshake failure, fun _ => descends_of_holds⟩

omit settled in
theorem descends_of_renew {sendKey recvKey : Key} {handshake : Handshake}
    {now : ℕ}
    (held : ({ tunnel with handshake }.renew (.new sendKey recvKey own peer now) now).Holds
      session) : tunnel.Descends packet session := by
  rcases held with new | old
  · obtain rfl := some.inj new
    exact .inl rfl
  · exact descends_of_holds (.inl old)

theorem handleHandshakeInit_receives (sender : indexAt packet 4 = peer) (dst : Bytes)
    (moment : Moment) :
    Receives own peer tunnel packet (tunnel.handleHandshakeInit crypto packet dst moment) := by
  obtain ⟨handshake, -, ⟨failure, result⟩ | ⟨-, sendKey, recvKey, rest, result⟩⟩ :=
    tunnel.handleHandshakeInit_cases crypto packet dst moment
  · rw [result]
    exact receives_err settled packet handshake failure
  · obtain rfl := settled.index
    rw [result, sender]
    refine ⟨⟨(settled.of_handshake handshake).renew sendKey recvKey moment.now, le_refl _, ?_⟩,
      fun _ => descends_of_renew⟩
    rintro answer ⟨⟩
    exact ⟨addressed_response _ peer, fun other => absurd other (show (2 : UInt8) ≠ 4 by decide)⟩

theorem handleHandshakeResponse_receives (room : tunnel.HasRoom)
    (addressed : indexAt packet 4 = peer ∧ indexAt packet 8 = own) (dst : Bytes) (moment : Moment) :
    Receives own peer tunnel packet (tunnel.handleHandshakeResponse crypto packet dst moment) := by
  obtain ⟨handshake, -, ⟨failure, result⟩ | ⟨sendKey, recvKey, result⟩⟩ :=
    tunnel.handleHandshakeResponse_cases crypto packet dst moment
  · rw [result]
    exact receives_err settled packet handshake failure
  · rw [result, addressed.1, addressed.2]
    have renewed := (settled.of_handshake handshake).renew sendKey recvKey moment.now
    have progress := encapsulate_progress crypto renewed room [] dst moment
    refine ⟨⟨progress.settled, progress.counter, progress.emits⟩, ?_⟩
    intro session held
    rw [encapsulate_holds_iff] at held
    exact descends_of_renew held

omit settled in
/-- Data goes to the current session, if that has the receiver index of the packet. -/
theorem handleTransportData_of_current (current : tunnel.currentSession = some session)
    (receiver : session.ourIndex = indexAt packet 4) (long : 32 ≤ packet.length)
    (source : Option IpAddr) (dst : Bytes) (now : ℕ) :
    tunnel.handleTransportData crypto source packet dst now =
      let decrypted := tunnel.decryptTransport crypto session (counterAt packet 8)
        (packet.drop 16) dst source now
      (decrypted.1, { decrypted.2.2 with currentSession := some decrypted.2.1 }) := by
  unfold handleTransportData
  rw [if_neg (not_lt.mpr long), current]
  simp only [filter_some, receiver, beq_self_eq_true, if_true]

theorem handleTransportData_receives (typed : messageByte packet = 4)
    (receiver : indexAt packet 4 = own) (source : Option IpAddr) (dst : Bytes) (now : ℕ) :
    Receives own peer tunnel packet (tunnel.handleTransportData crypto source packet dst now) := by
  by_cases short : packet.length < 32
  · rw [handleTransportData, if_pos short]
    exact receives_err settled packet tunnel.handshake _
  · cases current : tunnel.currentSession with
    | none =>
      rw [handleTransportData, if_neg short, current, settled.idle current, settled.next]
      exact receives_err settled packet tunnel.handshake _
    | some session =>
      have indices := settled.sessions session (.inl current)
      rw [handleTransportData_of_current crypto current (indices.1.trans receiver.symm)
        (not_lt.mp short)]
      rcases tunnel.decryptTransport_cases crypto session (counterAt packet 8) (packet.drop 16)
          dst source now with ⟨failure, result⟩ | ⟨outcome, received, quiet, result⟩
      · rw [result]
        dsimp only
        rw [← current]
        exact receives_err settled packet tunnel.handshake _
      · rw [result]
        refine ⟨⟨⟨settled.index, ?_, settled.next, nofun⟩, le_refl _, ?_⟩, ?_⟩
        · rintro other (new | old)
          · obtain rfl := some.inj new
            exact indices
          · exact settled.sessions other (.inr old)
        · rintro answer written
          cases (show outcome = .writeToNetwork answer from written)
          cases quiet
        · rintro other (new | old)
          · obtain rfl := some.inj new
            exact .inr ⟨session, .inl current, .inr ⟨typed, rfl⟩⟩
          · exact descends_of_holds (.inr old)

theorem decapsulate_receives (room : tunnel.HasRoom) (addressed : Addressed peer own packet)
    (source : Option IpAddr) (dst : Bytes) (moment : Moment) :
    Receives own peer tunnel packet (tunnel.decapsulate crypto source packet dst moment) := by
  have unchanged (failure : WireGuardError) :
      Receives own peer tunnel packet (.err failure, tunnel) :=
    receives_err settled packet tunnel.handshake failure
  unfold decapsulate
  split
  · exact unchanged _
  · cases parsed : MessageType.tryFrom (messageByte packet) with
    | error failure => exact unchanged failure
    | ok type =>
      have byte := MessageType.toByte_of_tryFrom parsed
      cases type with
      | handshakeInit =>
        exact handleHandshakeInit_receives crypto settled (addressed.initiation byte) dst moment
      | handshakeResponse =>
        exact handleHandshakeResponse_receives crypto settled room (addressed.response byte) dst
          moment
      | cookieReply =>
        refine ⟨⟨settled, le_refl _, ?_⟩, fun _ => descends_of_holds⟩
        intro answer written
        simp only [handleCookieReply] at written
        split at written <;> cases written
      | transportData =>
        exact handleTransportData_receives crypto settled byte (addressed.data byte) source dst
          moment.now

end Tunn

structure Cover where
  key : Key
  counter : UInt64
  plaintext : Bytes
deriving DecidableEq

/-- The session's key, the counter and the plaintext that a request sends, if it sends data of
its own. -/
def Tunn.cover (tunnel : Tunn) : Request → Option Cover
  | .encapsulate src _ moment =>
    (tunnel.currentSession.filter (!·.isExpired moment.now)).map fun session =>
      ⟨session.sendKey, tunnel.txCounter, src⟩
  | _ => none

structure Sent where
  bytes : Bytes
  cover : Option Cover
deriving DecidableEq

/-- A tunnel, what it has sent, and which packets of the other end it was given. -/
structure Endpoint where
  tunnel : Tunn
  sent : List Sent
  delivered : List ℕ

def Endpoint.emit (endpoint : Endpoint) (result : TunnResult) (cover : Option Cover) : Endpoint :=
  match result with
  | .writeToNetwork bytes => { endpoint with sent := endpoint.sent ++ [⟨bytes, cover⟩] }
  | _ => endpoint

namespace Endpoint

variable (endpoint : Endpoint)

@[simp] theorem emit_tunnel (result : TunnResult) (cover : Option Cover) :
    (endpoint.emit result cover).tunnel = endpoint.tunnel := by
  unfold emit
  split <;> rfl

@[simp] theorem emit_delivered (result : TunnResult) (cover : Option Cover) :
    (endpoint.emit result cover).delivered = endpoint.delivered := by
  unfold emit
  split <;> rfl

theorem sent_prefix_emit (tunnel : Tunn) (sent : List Sent) (delivered : List ℕ)
    (result : TunnResult) (cover : Option Cover) :
    sent <+: (emit ⟨tunnel, sent, delivered⟩ result cover).sent := by
  unfold emit
  split
  · exact prefix_append _ _
  · exact prefix_rfl

end Endpoint

inductive Side where
  | left
  | right
deriving DecidableEq

namespace Side

def other : Side → Side
  | .left => .right
  | .right => .left

@[simp] theorem other_other (side : Side) : side.other.other = side := by
  cases side <;> rfl

theorem eq_or_eq_other (each side : Side) : each = side ∨ each = side.other := by
  cases each <;> cases side <;> decide

end Side

structure Link where
  left : Endpoint
  right : Endpoint

inductive Event where
  | serve (side : Side) (request : Request)
  | deliver (side : Side) (place : ℕ) (source : Option IpAddr) (dst : Bytes) (moment : Moment)

namespace Link

def endpoint (link : Link) : Side → Endpoint
  | .left => link.left
  | .right => link.right

def update (link : Link) (endpoint : Endpoint) : Side → Link
  | .left => { link with left := endpoint }
  | .right => { link with right := endpoint }

@[simp] theorem endpoint_update_self (link : Link) (endpoint : Endpoint) (side : Side) :
    (link.update endpoint side).endpoint side = endpoint := by
  cases side <;> rfl

@[simp] theorem endpoint_update_other (link : Link) (endpoint : Endpoint) (side : Side) :
    (link.update endpoint side).endpoint side.other = link.endpoint side.other := by
  cases side <;> rfl

variable (crypto : Primitives)

def step (link : Link) : Event → Link
  | .serve side request =>
    let own := link.endpoint side
    let outcome := own.tunnel.serve crypto request
    link.update ({ own with tunnel := outcome.2 }.emit outcome.1 (own.tunnel.cover request)) side
  | .deliver side place source dst moment =>
    match (link.endpoint side.other).sent[place]? with
    | none => link
    | some packet =>
      let own := link.endpoint side
      let outcome := own.tunnel.decapsulate crypto source packet.bytes dst moment
      let delivered := place :: own.delivered
      link.update ({ own with tunnel := outcome.2, delivered }.emit outcome.1 none) side

end Link

/-- The packet was made by an end with these indices, and its counter is below the next one. -/
structure Sent.Made (crypto : Primitives) (own peer : UInt32) (txCounter : UInt64)
    (packet : Sent) : Prop where
  addressed : Addressed own peer packet.bytes
  counter : messageByte packet.bytes = 4 → (counterAt packet.bytes 8).toNat < txCounter.toNat
  cover : ∀ cover, packet.cover = some cover → ∃ ciphertext,
    crypto.encrypt cover.key (Primitives.nonce cover.counter) cover.plaintext [] =
      some ciphertext ∧ packet.bytes = dataPacket peer cover.counter ciphertext

/-- Two packets that are not data with one counter. -/
def Sent.Apart (first second : Sent) : Prop :=
  messageByte first.bytes = 4 → messageByte second.bytes = 4 →
    counterAt first.bytes 8 ≠ counterAt second.bytes 8

namespace Endpoint

variable (crypto : Primitives)

structure Sound (own peer : UInt32) (endpoint : Endpoint) : Prop where
  settled : endpoint.tunnel.Settled own peer
  made : ∀ packet ∈ endpoint.sent, packet.Made crypto own peer endpoint.tunnel.txCounter
  apart : endpoint.sent.Pairwise Sent.Apart

variable {crypto} {own peer : UInt32} {endpoint : Endpoint}

theorem Sound.advance (sound : endpoint.Sound crypto own peer) {outcome : TunnResult × Tunn}
    (progress : Tunn.Progress own peer endpoint.tunnel outcome) (delivered : List ℕ)
    {cover : Option Cover}
    (covers : ∀ bytes, outcome.1 = .writeToNetwork bytes → ∀ made, cover = some made →
      ∃ ciphertext, crypto.encrypt made.key (Primitives.nonce made.counter) made.plaintext [] =
        some ciphertext ∧ bytes = dataPacket peer made.counter ciphertext) :
    Sound crypto own peer
      (({ endpoint with tunnel := outcome.2, delivered } : Endpoint).emit outcome.1 cover) := by
  have older packet (member : packet ∈ endpoint.sent) :
      packet.Made crypto own peer outcome.2.txCounter := by
    have made := sound.made packet member
    exact ⟨made.addressed, fun data => lt_of_lt_of_le (made.counter data) progress.counter,
      made.cover⟩
  unfold emit
  split
  next bytes written =>
    have emits := progress.emits bytes written
    refine ⟨progress.settled, ?_, ?_⟩
    · refine forall_mem_append.mpr ⟨older, forall_mem_singleton.mpr ?_⟩
      exact ⟨emits.addressed, fun data => (emits.counter data).2, covers bytes written⟩
    · refine pairwise_append.mpr ⟨sound.apart, pairwise_singleton _ _, ?_⟩
      intro first earlier second new data dataNew same
      obtain rfl := mem_singleton.mp new
      have below := (sound.made first earlier).counter data
      have above := (emits.counter dataNew).1
      rw [same] at below
      simp only at below
      omega
  next => exact ⟨progress.settled, older, sound.apart⟩

end Endpoint

theorem Tunn.serve_cover {own peer : UInt32} {tunnel : Tunn} (crypto : Primitives)
    (settled : tunnel.Settled own peer) {request : Request} {bytes : Bytes}
    (written : (tunnel.serve crypto request).1 = .writeToNetwork bytes) {made : Cover}
    (covered : tunnel.cover request = some made) :
    ∃ ciphertext, crypto.encrypt made.key (Primitives.nonce made.counter) made.plaintext [] =
      some ciphertext ∧ bytes = dataPacket peer made.counter ciphertext := by
  cases request with
  | formatHandshakeInitiation dst moment => cases covered
  | updateTimers dst moment => cases covered
  | encapsulate src dst moment =>
    rw [serve] at written
    obtain ⟨session, active, rfl⟩ := map_eq_some_iff.mp covered
    rcases tunnel.encapsulate_cases crypto src dst moment with
      ⟨handshake, -, ⟨failure, result⟩ | ⟨none, -⟩⟩ |
        ⟨other, found, ⟨failure, result⟩ | ⟨ciphertext, encrypted, result⟩⟩
    · rw [result] at written
      cases written
    · rw [none] at active
      cases active
    · rw [result] at written
      cases written
    · obtain rfl := some.inj (found.symm.trans active)
      have held := settled.sessions other (.inl (filter_eq_some_iff.mp found).1)
      rw [result, held.2] at written
      cases written
      exact ⟨ciphertext, encrypted, rfl⟩

end Warp.Noise
