import Warp.Noise.Handshake

/-! # Tunnels

A completed handshake makes the current session the previous one. Incoming data goes to the first
session whose index is the receiver index of the packet. Delivering an accepted initiation again
replaces both sessions, unless the buffer is too short for the response
(`Responder.replayed_initiation`): its timestamp is never compared with earlier ones.
-/

namespace Warp.Noise

open Handshake

inductive IpAddr where
  | v4 (octets : Vector UInt8 4)
  | v6 (octets : Vector UInt8 16)
deriving DecidableEq

def IpAddr.unspecified : IpAddr := .v4 (.replicate 4 0)

inductive TunnResult where
  | done
  | err (failure : WireGuardError)
  | writeToNetwork (packet : Bytes)
  | writeToTunnelV4 (packet : Bytes) (source : IpAddr)
  | writeToTunnelV6 (packet : Bytes) (source : IpAddr)
deriving DecidableEq

def TunnResult.isAnswer : TunnResult → Bool
  | .writeToNetwork _ => true
  | _ => false

inductive MessageType where
  | handshakeInit
  | handshakeResponse
  | cookieReply
  | transportData

def MessageType.tryFrom (value : UInt8) : Except WireGuardError MessageType :=
  if value = 1 then .ok .handshakeInit
  else if value = 2 then .ok .handshakeResponse
  else if value = 3 then .ok .cookieReply
  else if value = 4 then .ok .transportData
  else .error .invalidPacket

def MessageType.toByte : MessageType → UInt8
  | .handshakeInit => 1
  | .handshakeResponse => 2
  | .cookieReply => 3
  | .transportData => 4

theorem MessageType.toByte_of_tryFrom {value : UInt8} {type : MessageType}
    (parsed : tryFrom value = .ok type) : value = type.toByte := by
  unfold tryFrom at parsed
  split at parsed
  · cases parsed
    assumption
  · split at parsed
    · cases parsed
      assumption
    · split at parsed
      · cases parsed
        assumption
      · split at parsed
        · cases parsed
          assumption
        · cases parsed

def counterAt (packet : Bytes) (position : ℕ) : UInt64 :=
  .ofNat (Bytes.leValue (Bytes.slice packet position (position + 8)))

structure Tunn where
  handshake : Handshake
  currentSession : Option TransportSession
  previousSession : Option TransportSession
  nextSession : Option TransportSession
  tunnelIndex : UInt32
  txCounter : UInt64
  keepaliveInterval : Option ℕ
  lastHandshake : Option ℕ
  lastReceived : Option ℕ

def dataPacket (receiver : UInt32) (counter : UInt64) (ciphertext : Bytes) : Bytes :=
  [4, 0, 0, 0] ++ (Bytes.leBytes 4 receiver.toNat ++ (Bytes.leBytes 8 counter.toNat ++ ciphertext))

namespace Tunn

variable (crypto : Primitives)

def new (staticPrivate peerStaticPublic : Key) (presharedKey : Option Key)
    (keepalive : Option UInt16) (tunnelIndex : UInt32) : Tunn where
  handshake := .new crypto
    ⟨staticPrivate, crypto.publicKey staticPrivate, peerStaticPublic, presharedKey⟩
  currentSession := none
  previousSession := none
  nextSession := none
  tunnelIndex
  txCounter := 0
  keepaliveInterval := keepalive.map fun seconds => seconds.toNat * 10 ^ 9
  lastHandshake := none
  lastReceived := none

section
variable (tunnel : Tunn)

def needsHandshake (now : ℕ) : Bool :=
  tunnel.currentSession.all (·.isExpired now)

def formatHandshakeInitiation (dst : Bytes) (moment : Moment) : TunnResult × Tunn :=
  if dst.length < 148 then (.err .destinationBufferTooSmall, tunnel)
  else
    match tunnel.handshake.createInitiation crypto tunnel.tunnelIndex dst moment with
    | (.ok message, handshake) => (.writeToNetwork message, { tunnel with handshake })
    | (.error failure, handshake) => (.err failure, { tunnel with handshake })

def encapsulate (src dst : Bytes) (moment : Moment) : TunnResult × Tunn :=
  match tunnel.currentSession.filter (!·.isExpired moment.now) with
  | none => tunnel.formatHandshakeInitiation crypto dst moment
  | some session =>
    if dst.length < 16 + src.length + 16 then (.err .destinationBufferTooSmall, tunnel)
    else
      let counter := tunnel.txCounter
      let tunnel := { tunnel with txCounter := tunnel.txCounter + 1 }
      match session.encrypt crypto counter src (dst.drop 16) with
      | .ok (length, output) =>
        let header := [4, 0, 0, 0] ++ Bytes.leBytes 4 session.peerIndex.toNat ++
          Bytes.leBytes 8 counter.toNat
        (.writeToNetwork (header ++ output.take length), tunnel)
      | .error failure => (.err failure, tunnel)

def updateTimers (dst : Bytes) (moment : Moment) : TunnResult × Tunn :=
  let silent := tunnel.keepaliveInterval.any fun interval =>
    tunnel.lastReceived.any fun last => moment.now - last > interval
  if silent then tunnel.encapsulate crypto [] dst moment
  else if tunnel.needsHandshake moment.now then tunnel.formatHandshakeInitiation crypto dst moment
  else (.done, tunnel)

def renew (session : TransportSession) (now : ℕ) : Tunn :=
  { tunnel with
    previousSession := tunnel.currentSession
    currentSession := some session
    lastHandshake := some now }

def handleHandshakeInit (packet dst : Bytes) (moment : Moment) : TunnResult × Tunn :=
  if packet.length < 148 then (.err .invalidPacket, tunnel)
  else if dst.length < 92 then (.err .destinationBufferTooSmall, tunnel)
  else
    match tunnel.handshake.consumeInitiation crypto packet with
    | (.error failure, handshake) => (.err failure, { tunnel with handshake })
    | (.ok (), handshake) =>
      match handshake.createResponse crypto tunnel.tunnelIndex dst moment with
      | (.error failure, handshake) => (.err failure, { tunnel with handshake })
      | (.ok message, handshake) =>
        match handshake.deriveSession crypto false moment.now with
        | (none, handshake) => (.writeToNetwork message, { tunnel with handshake })
        | (some session, handshake) =>
          (.writeToNetwork message, { tunnel with handshake }.renew session moment.now)

def handleHandshakeResponse (packet dst : Bytes) (moment : Moment) : TunnResult × Tunn :=
  if packet.length < 92 then (.err .invalidPacket, tunnel)
  else
    match tunnel.handshake.consumeResponse crypto packet with
    | (.error failure, handshake) => (.err failure, { tunnel with handshake })
    | (.ok (), handshake) =>
      match handshake.deriveSession crypto true moment.now with
      | (none, handshake) => (.done, { tunnel with handshake })
      | (some session, handshake) =>
        -- Send empty packet to confirm
        ({ tunnel with handshake }.renew session moment.now).encapsulate crypto [] dst moment

end

def handleCookieReply (packet : Bytes) : TunnResult :=
  if packet.length < 64 then .err .invalidPacket else .done

/-- The result for a plaintext of a length in a buffer, by its IP version. -/
def forward (length : ℕ) (output : Bytes) (source : Option IpAddr) : TunnResult :=
  if length = 0 then .done
  else
    let ipVersion := output.getD 0 0 >>> 4
    let address := source.getD .unspecified
    if ipVersion = 4 then .writeToTunnelV4 (output.take length) address
    else if ipVersion = 6 then .writeToTunnelV6 (output.take length) address
    else .err .invalidPacket

/-- Decrypt with a session: the result, the session afterwards, and the tunnel. -/
def decryptTransport (tunnel : Tunn) (session : TransportSession) (counter : UInt64)
    (encrypted dst : Bytes) (source : Option IpAddr) (now : ℕ) :
    TunnResult × TransportSession × Tunn :=
  let plaintextLen := encrypted.length - 16
  if dst.length < plaintextLen then (.err .destinationBufferTooSmall, session, tunnel)
  else
    match session.decrypt crypto counter encrypted (dst.take plaintextLen) with
    | (.error failure, session) => (.err failure, session, tunnel)
    | (.ok (length, output), session) =>
      (forward length output source, session, { tunnel with lastReceived := some now })

def handleTransportData (tunnel : Tunn) (source : Option IpAddr) (packet dst : Bytes)
    (now : ℕ) : TunnResult × Tunn :=
  if packet.length < 32 then (.err .invalidPacket, tunnel)
  else
    let receiverIndex := indexAt packet 4
    let counter := counterAt packet 8
    let encrypted := packet.drop 16
    let receives (session : TransportSession) : Bool := session.ourIndex == receiverIndex
    match tunnel.currentSession.filter receives with
    | some session =>
      let (result, session, tunnel) :=
        tunnel.decryptTransport crypto session counter encrypted dst source now
      (result, { tunnel with currentSession := some session })
    | none =>
      match tunnel.previousSession.filter receives with
      | some session =>
        let (result, session, tunnel) :=
          tunnel.decryptTransport crypto session counter encrypted dst source now
        (result, { tunnel with previousSession := some session })
      | none =>
        match tunnel.nextSession.filter receives with
        | some session =>
          let (result, session, tunnel) :=
            tunnel.decryptTransport crypto session counter encrypted dst source now
          (result, { tunnel with nextSession := some session })
        | none => (.err .noSession, tunnel)

def decapsulate (tunnel : Tunn) (source : Option IpAddr) (packet dst : Bytes)
    (moment : Moment) : TunnResult × Tunn :=
  if packet.length < 4 then (.err .invalidPacket, tunnel)
  else
    match MessageType.tryFrom (messageByte packet) with
    | .error failure => (.err failure, tunnel)
    | .ok .handshakeInit => tunnel.handleHandshakeInit crypto packet dst moment
    | .ok .handshakeResponse => tunnel.handleHandshakeResponse crypto packet dst moment
    | .ok .cookieReply => (handleCookieReply packet, tunnel)
    | .ok .transportData => tunnel.handleTransportData crypto source packet dst moment.now

variable (tunnel : Tunn) (packet dst : Bytes)

/-- With a handshake of the same long-term keys. -/
def SameKeys (handshake : Handshake) : Prop :=
  handshake.toIdentity = tunnel.handshake.toIdentity

/-- Initiating a handshake changes the handshake only, and sends nothing but an initiation. -/
theorem formatHandshakeInitiation_cases (dst : Bytes) (moment : Moment) :
    ∃ handshake, tunnel.SameKeys handshake ∧
      ((∃ failure, tunnel.formatHandshakeInitiation crypto dst moment =
        (.err failure, { tunnel with handshake })) ∨
      ∃ rest, tunnel.formatHandshakeInitiation crypto dst moment =
        (.writeToNetwork ([1, 0, 0, 0] ++ (Bytes.leBytes 4 tunnel.tunnelIndex.toNat ++ rest)),
          { tunnel with handshake })) := by
  unfold formatHandshakeInitiation
  split
  · exact ⟨tunnel.handshake, rfl, .inl ⟨_, rfl⟩⟩
  · have identity := tunnel.handshake.createInitiation_identity crypto dst tunnel.tunnelIndex moment
    have shape message created := tunnel.handshake.createInitiation_message crypto dst
      tunnel.tunnelIndex moment (show _ = Except.ok message from created)
    rcases result : tunnel.handshake.createInitiation crypto tunnel.tunnelIndex dst moment with
      ⟨failure | message, handshake⟩
    · rw [result] at identity
      exact ⟨handshake, identity, .inl ⟨failure, rfl⟩⟩
    · rw [result] at identity shape
      obtain ⟨rest, rfl⟩ := shape message rfl
      exact ⟨handshake, identity, .inr ⟨rest, rfl⟩⟩

/-- Encapsulating sends data under the current session, with the next counter, or initiates a
handshake. -/
theorem encapsulate_cases (src dst : Bytes) (moment : Moment) :
    (∃ handshake, tunnel.SameKeys handshake ∧
      ((∃ failure, tunnel.encapsulate crypto src dst moment =
        (.err failure, { tunnel with handshake })) ∨
      tunnel.currentSession.filter (!·.isExpired moment.now) = none ∧
        ∃ rest, tunnel.encapsulate crypto src dst moment =
          (.writeToNetwork ([1, 0, 0, 0] ++ (Bytes.leBytes 4 tunnel.tunnelIndex.toNat ++ rest)),
            { tunnel with handshake }))) ∨
    ∃ session, tunnel.currentSession.filter (!·.isExpired moment.now) = some session ∧
      ((∃ failure, tunnel.encapsulate crypto src dst moment =
        (.err failure, { tunnel with txCounter := tunnel.txCounter + 1 })) ∨
      ∃ ciphertext,
        crypto.encrypt session.sendKey (Primitives.nonce tunnel.txCounter) src [] =
          some ciphertext ∧
        tunnel.encapsulate crypto src dst moment =
          (.writeToNetwork (dataPacket session.peerIndex tunnel.txCounter ciphertext),
            { tunnel with txCounter := tunnel.txCounter + 1 })) := by
  unfold encapsulate
  cases tunnel.currentSession.filter (!·.isExpired moment.now) with
  | none =>
    obtain ⟨handshake, same, failed | sent⟩ :=
      tunnel.formatHandshakeInitiation_cases crypto dst moment
    · exact .inl ⟨handshake, same, .inl failed⟩
    · exact .inl ⟨handshake, same, .inr ⟨rfl, sent⟩⟩
  | some session =>
    dsimp only
    split
    · exact .inl ⟨tunnel.handshake, rfl, .inl ⟨_, rfl⟩⟩
    · refine .inr ⟨session, rfl, ?_⟩
      cases encrypted : session.encrypt crypto tunnel.txCounter src (dst.drop 16) with
      | error failure => exact .inl ⟨failure, rfl⟩
      | ok result =>
        obtain ⟨ciphertext, made, -, rfl⟩ :=
          (Primitives.aeadEncrypt_eq_ok_iff crypto).mp encrypted
        refine .inr ⟨ciphertext, made, ?_⟩
        simp [dataPacket]

theorem updateTimers_cases (dst : Bytes) (moment : Moment) :
    tunnel.updateTimers crypto dst moment = tunnel.encapsulate crypto [] dst moment ∨
    tunnel.updateTimers crypto dst moment = tunnel.formatHandshakeInitiation crypto dst moment ∨
    tunnel.updateTimers crypto dst moment = (.done, tunnel) := by
  unfold updateTimers
  dsimp only
  split
  · exact .inl rfl
  · split
    · exact .inr (.inl rfl)
    · exact .inr (.inr rfl)

/-- An initiation is refused or, if it is authentic, answered with a new session. -/
theorem handleHandshakeInit_cases (moment : Moment) :
    ∃ handshake, tunnel.SameKeys handshake ∧
      ((∃ failure, tunnel.handleHandshakeInit crypto packet dst moment =
        (.err failure, { tunnel with handshake })) ∨
      ((tunnel.handshake.consumeInitiation crypto packet).1 = .ok () ∧
        ∃ sendKey recvKey rest, tunnel.handleHandshakeInit crypto packet dst moment =
        (.writeToNetwork ([2, 0, 0, 0] ++ (Bytes.leBytes 4 tunnel.tunnelIndex.toNat ++
            (Bytes.leBytes 4 (indexAt packet 4).toNat ++ rest))),
          { tunnel with handshake }.renew
            (.new sendKey recvKey tunnel.tunnelIndex (indexAt packet 4) moment.now)
            moment.now))) := by
  unfold handleHandshakeInit
  split
  · exact ⟨tunnel.handshake, rfl, .inl ⟨_, rfl⟩⟩
  · split
    · exact ⟨tunnel.handshake, rfl, .inl ⟨_, rfl⟩⟩
    · have kept := tunnel.handshake.consumeInitiation_identity crypto packet
      have parsed := tunnel.handshake.consumeInitiation_of_ok crypto packet
      rcases read : tunnel.handshake.consumeInitiation crypto packet with
        ⟨failure | accepted, initiated⟩ <;> rw [read] at kept parsed
      · exact ⟨initiated, kept, .inl ⟨failure, rfl⟩⟩
      · have keptAgain := initiated.createResponse_identity crypto dst tunnel.tunnelIndex moment
        have shape message created := initiated.createResponse_message crypto dst
          tunnel.tunnelIndex moment (show _ = Except.ok message from created)
        dsimp only
        rcases written : initiated.createResponse crypto tunnel.tunnelIndex dst moment with
          ⟨failure | message, responded⟩ <;> rw [written] at keptAgain shape
        · exact ⟨responded, keptAgain.trans kept, .inl ⟨failure, rfl⟩⟩
        · obtain ⟨⟨rest, rfl⟩, ready, ours, peer⟩ := shape message rfl
          have keptLast := responded.deriveSession_identity crypto false moment.now
          obtain ⟨sendKey, recvKey, derived⟩ :=
            responded.deriveSession_of_complete crypto false moment.now (.inl ready)
          rw [ours, peer, (parsed rfl).1] at derived
          rcases last : responded.deriveSession crypto false moment.now with ⟨session, completed⟩
          rw [last] at keptLast derived
          dsimp only at derived
          subst derived
          refine ⟨completed, (keptLast.trans keptAgain).trans kept, .inr ⟨rfl, ?_⟩⟩
          rw [(parsed rfl).1]
          exact ⟨sendKey, recvKey, rest, by simp only [last]⟩

/-- A response is refused or, if it is authentic, gives a new session and an empty packet. -/
theorem handleHandshakeResponse_cases (moment : Moment) :
    ∃ handshake, tunnel.SameKeys handshake ∧
      ((∃ failure, tunnel.handleHandshakeResponse crypto packet dst moment =
        (.err failure, { tunnel with handshake })) ∨
      ∃ sendKey recvKey, tunnel.handleHandshakeResponse crypto packet dst moment =
        ({ tunnel with handshake }.renew
          (.new sendKey recvKey (indexAt packet 8) (indexAt packet 4) moment.now)
          moment.now).encapsulate crypto [] dst moment) := by
  unfold handleHandshakeResponse
  split
  · exact ⟨tunnel.handshake, rfl, .inl ⟨_, rfl⟩⟩
  · have kept := tunnel.handshake.consumeResponse_identity crypto packet
    have completes := tunnel.handshake.consumeResponse_of_ok crypto packet
    rcases read : tunnel.handshake.consumeResponse crypto packet with
      ⟨failure | accepted, answered⟩ <;> rw [read] at kept completes
    · exact ⟨answered, kept, .inl ⟨failure, rfl⟩⟩
    · obtain ⟨complete, ours, peer⟩ := completes rfl
      have keptLast := answered.deriveSession_identity crypto true moment.now
      obtain ⟨sendKey, recvKey, derived⟩ :=
        answered.deriveSession_of_complete crypto true moment.now (.inr complete)
      rw [ours, peer] at derived
      rcases last : answered.deriveSession crypto true moment.now with ⟨session, completed⟩
      rw [last] at keptLast derived
      dsimp only at derived
      subst derived
      exact ⟨completed, keptLast.trans kept, .inr ⟨sendKey, recvKey, by simp only [last]⟩⟩

end Tunn

inductive Request where
  | formatHandshakeInitiation (dst : Bytes) (moment : Moment)
  | encapsulate (src dst : Bytes) (moment : Moment)
  | updateTimers (dst : Bytes) (moment : Moment)

def Tunn.serve (crypto : Primitives) (tunnel : Tunn) : Request → TunnResult × Tunn
  | .formatHandshakeInitiation dst moment => tunnel.formatHandshakeInitiation crypto dst moment
  | .encapsulate src dst moment => tunnel.encapsulate crypto src dst moment
  | .updateTimers dst moment => tunnel.updateTimers crypto dst moment

namespace Tunn

variable (crypto : Primitives) (tunnel : Tunn) (session : TransportSession) (source : Option IpAddr)
  (counter : UInt64) {packet : Bytes} {dst : Bytes}

@[simp] theorem formatHandshakeInitiation_identity (dst : Bytes) (moment : Moment) :
    tunnel.SameKeys (tunnel.formatHandshakeInitiation crypto dst moment).2.handshake := by
  obtain ⟨handshake, same, ⟨_, result⟩ | ⟨_, result⟩⟩ :=
    tunnel.formatHandshakeInitiation_cases crypto dst moment
  · rw [result]
    exact same
  · rw [result]
    exact same

theorem encapsulate_identity (src dst : Bytes) (moment : Moment) :
    tunnel.SameKeys (tunnel.encapsulate crypto src dst moment).2.handshake := by
  rcases tunnel.encapsulate_cases crypto src dst moment with
    ⟨handshake, same, ⟨_, result⟩ | ⟨-, _, result⟩⟩ | ⟨session, -, ⟨_, result⟩ | ⟨_, -, result⟩⟩
  · rw [result]
    exact same
  · rw [result]
    exact same
  · rw [result]
    rfl
  · rw [result]
    rfl

theorem serve_identity (request : Request) :
    tunnel.SameKeys (tunnel.serve crypto request).2.handshake := by
  cases request with
  | formatHandshakeInitiation dst moment =>
    exact tunnel.formatHandshakeInitiation_identity crypto dst moment
  | encapsulate src dst moment => exact tunnel.encapsulate_identity crypto src dst moment
  | updateTimers dst moment =>
    rw [serve]
    rcases tunnel.updateTimers_cases crypto dst moment with result | result | result
    · rw [result]
      exact tunnel.encapsulate_identity crypto [] dst moment
    · rw [result]
      exact tunnel.formatHandshakeInitiation_identity crypto dst moment
    · rw [result]
      rfl

theorem forward_isAnswer (length : ℕ) (output : Bytes) (source : Option IpAddr) :
    (forward length output source).isAnswer = false := by
  unfold forward
  split
  · rfl
  · dsimp only
    split
    · rfl
    · split <;> rfl

/-- Decrypting checks the packet's counter with the session, unless the buffer is too short. -/
theorem decryptTransport_cases (encrypted dst : Bytes) (source : Option IpAddr) (now : ℕ) :
    (∃ failure, tunnel.decryptTransport crypto session counter encrypted dst source now =
      (.err failure, session, tunnel)) ∨
    ∃ result received, result.isAnswer = false ∧
      tunnel.decryptTransport crypto session counter encrypted dst source now =
        (result, { session with toSession := (session.checkAndUpdateReplay counter).2 },
          { tunnel with lastReceived := received }) := by
  unfold decryptTransport
  dsimp only
  split
  · exact .inl ⟨_, rfl⟩
  · have after := session.decrypt_snd crypto counter encrypted (dst.take (encrypted.length - 16))
    rcases decrypted : session.decrypt crypto counter encrypted
        (dst.take (encrypted.length - 16)) with ⟨failure | ⟨length, output⟩, checked⟩ <;>
      rw [decrypted] at after <;> dsimp only at after <;> subst after
    · exact .inr ⟨.err failure, tunnel.lastReceived, rfl, rfl⟩
    · exact .inr ⟨_, _, forward_isAnswer length output source, rfl⟩

@[simp] theorem decryptTransport_handshake (encrypted dst : Bytes) (source : Option IpAddr)
    (now : ℕ) :
    (tunnel.decryptTransport crypto session counter encrypted dst source now).2.2.handshake =
      tunnel.handshake := by
  rcases tunnel.decryptTransport_cases crypto session counter encrypted dst source now with
    ⟨_, result⟩ | ⟨_, _, -, result⟩ <;> rw [result]

theorem handleTransportData_handshake (packet dst : Bytes) (now : ℕ) :
    (tunnel.handleTransportData crypto source packet dst now).2.handshake = tunnel.handshake := by
  unfold handleTransportData
  split
  · rfl
  · dsimp only
    split
    · exact decryptTransport_handshake ..
    · split
      · exact decryptTransport_handshake ..
      · split
        · exact decryptTransport_handshake ..
        · rfl

theorem decapsulate_identity (packet dst : Bytes) (moment : Moment) :
    tunnel.SameKeys (tunnel.decapsulate crypto source packet dst moment).2.handshake := by
  unfold decapsulate
  split
  · rfl
  · split
    · rfl
    · obtain ⟨handshake, same, ⟨_, result⟩ | ⟨-, _, _, _, result⟩⟩ :=
        tunnel.handleHandshakeInit_cases crypto packet dst moment
      · rw [result]
        exact same
      · rw [result]
        exact same
    · obtain ⟨handshake, same, ⟨_, result⟩ | ⟨_, _, result⟩⟩ :=
        tunnel.handleHandshakeResponse_cases crypto packet dst moment
      · rw [result]
        exact same
      · rw [result]
        exact (encapsulate_identity crypto ..).trans same
    · rfl
    · rw [SameKeys, handleTransportData_handshake]

theorem decapsulate_of_initiation (dst : Bytes) (moment : Moment) (typed : messageByte packet = 1) :
    tunnel.decapsulate crypto source packet dst moment =
      if packet.length < 4 then (.err .invalidPacket, tunnel)
      else tunnel.handleHandshakeInit crypto packet dst moment := by
  rw [decapsulate, typed]
  rfl

theorem consumeInitiation_of_answered {source : Option IpAddr} {moment : Moment}
    (typed : messageByte packet = 1)
    (answered : (tunnel.decapsulate crypto source packet dst moment).1.isAnswer = true) :
    (tunnel.handshake.consumeInitiation crypto packet).1 = .ok () := by
  rw [tunnel.decapsulate_of_initiation crypto source dst moment typed] at answered
  split at answered
  · cases answered
  · obtain ⟨_, -, ⟨_, result⟩ | ⟨accepted, -⟩⟩ :=
      tunnel.handleHandshakeInit_cases crypto packet dst moment
    · rw [result] at answered
      cases answered
    · exact accepted

/-- An authentic initiation is answered with a new session whenever the answer has room. -/
theorem handleHandshakeInit_of_authentic (moment : Moment)
    (accepted : (tunnel.handshake.consumeInitiation crypto packet).1 = .ok ())
    (room : handshakeResponseSize ≤ dst.length)
    (encrypts : ∀ key nonce aad, ∃ tag, crypto.encrypt key nonce [] aad = some tag ∧
      tag.length = tagLen) :
    ∃ sendKey recvKey handshake answer, tunnel.handleHandshakeInit crypto packet dst moment =
      (.writeToNetwork answer, { tunnel with handshake }.renew
        (.new sendKey recvKey tunnel.tunnelIndex (indexAt packet 4) moment.now) moment.now) := by
  obtain ⟨handshake, -, ⟨failure, result⟩ | ⟨-, sendKey, recvKey, _, result⟩⟩ :=
    tunnel.handleHandshakeInit_cases crypto packet dst moment
  · exfalso
    obtain ⟨⟨long, -⟩, -⟩ :=
      (tunnel.handshake.consumeInitiation_fst_eq_ok_iff crypto packet).mp accepted
    have known := (tunnel.handshake.consumeInitiation_of_ok crypto packet accepted).2
    obtain ⟨answer, created⟩ := exists_createResponse_eq_ok crypto _ dst
      tunnel.tunnelIndex moment known room encrypts
    have answered := congrArg (fun outcome => outcome.1.isAnswer) result
    unfold handleHandshakeInit at answered
    rw [if_neg (show ¬ packet.length < 148 from Nat.not_lt.mpr long),
      if_neg (show ¬ dst.length < 92 from Nat.not_lt.mpr room)] at answered
    rcases read : tunnel.handshake.consumeInitiation crypto packet with ⟨outcome, initiated⟩
    rw [read] at accepted created answered
    dsimp only at accepted created
    subst accepted
    dsimp only at answered
    rcases written : initiated.createResponse crypto tunnel.tunnelIndex dst moment with
      ⟨outcome, responded⟩
    rw [written] at created answered
    dsimp only at created
    subst created
    dsimp only at answered
    split at answered <;> cases answered
  · exact ⟨sendKey, recvKey, handshake, _, result⟩

end Tunn

inductive Call where
  | serve (request : Request)
  | decapsulate (source : Option IpAddr) (packet dst : Bytes) (moment : Moment)

structure Responder where
  tunnel : Tunn
  accepted : List Bytes

namespace Responder

variable (crypto : Primitives)

def step (responder : Responder) : Call → Responder
  | .serve request => { responder with tunnel := (responder.tunnel.serve crypto request).2 }
  | .decapsulate source packet dst moment =>
    let outcome := responder.tunnel.decapsulate crypto source packet dst moment
    ⟨outcome.2, if messageByte packet = 1 ∧ outcome.1.isAnswer then packet :: responder.accepted
      else responder.accepted⟩

/-- The long-term keys stay, and every accepted initiation is authentic under them. -/
structure Authentic (identity : Identity) (responder : Responder) : Prop where
  keys : responder.tunnel.handshake.toIdentity = identity
  accepted : ∀ packet ∈ responder.accepted,
    (handshakeInitSize ≤ packet.length ∧ messageByte packet = 1) ∧
      identity.fromPeer crypto packet = true ∧ identity.dated crypto packet = true

theorem authentic_step (identity : Identity) (responder : Responder) (call : Call)
    (authentic : Authentic crypto identity responder) :
    Authentic crypto identity (responder.step crypto call) := by
  cases call with
  | serve request =>
    exact ⟨(responder.tunnel.serve_identity crypto request).trans authentic.keys,
      authentic.accepted⟩
  | decapsulate source packet dst moment =>
    have keys := (responder.tunnel.decapsulate_identity crypto source packet dst moment).trans
      authentic.keys
    refine ⟨keys, ?_⟩
    intro known member
    rw [step] at member
    dsimp only at member
    split at member
    next answered =>
      rcases List.mem_cons.mp member with rfl | member
      · have accepted := responder.tunnel.consumeInitiation_of_answered crypto answered.1 answered.2
        rw [consumeInitiation_fst_eq_ok_iff, authentic.keys] at accepted
        exact accepted
      · exact authentic.accepted known member
    next => exact authentic.accepted known member

def start (tunnel : Tunn) : Responder := ⟨tunnel, []⟩

theorem authentic_after (tunnel : Tunn) (calls : List Call) :
    Authentic crypto tunnel.handshake.toIdentity
      (Run.after (step crypto) (start tunnel) calls) := by
  have initially : Authentic crypto tunnel.handshake.toIdentity (start tunnel) := by
    refine ⟨rfl, ?_⟩
    intro packet member
    exact absurd member List.not_mem_nil
  exact Run.invariant_of_step _ (authentic_step crypto _) initially calls

/-- Delivering an accepted initiation again leaves the sessions alone if the buffer is too short
for the response. Otherwise the current session becomes the previous one, behind a new one. -/
theorem replayed_initiation (tunnel : Tunn) (calls : List Call) (packet : Bytes)
    (accepted : packet ∈ (Run.after (step crypto) (start tunnel) calls).accepted)
    (source : Option IpAddr) (dst : Bytes) (moment : Moment) :
    let responder := (Run.after (step crypto) (start tunnel) calls).tunnel
    let replayed := (responder.decapsulate crypto source packet dst moment).2
    (dst.length < handshakeResponseSize →
      replayed.currentSession = responder.currentSession ∧
        replayed.previousSession = responder.previousSession) ∧
    (handshakeResponseSize ≤ dst.length →
      (∀ key nonce aad, ∃ tag, crypto.encrypt key nonce [] aad = some tag ∧ tag.length = tagLen) →
      replayed.previousSession = responder.currentSession ∧
        ∃ sendKey recvKey, replayed.currentSession = some (.new sendKey recvKey
          responder.tunnelIndex (indexAt packet 4) moment.now)) := by
  intro responder replayed
  have authentic := authentic_after crypto tunnel calls
  obtain ⟨⟨long, typed⟩, known⟩ := authentic.accepted packet accepted
  have ok : (responder.handshake.consumeInitiation crypto packet).1 = .ok () := by
    rw [consumeInitiation_fst_eq_ok_iff, authentic.keys]
    exact ⟨⟨long, typed⟩, known⟩
  have handled : replayed = (responder.handleHandshakeInit crypto packet dst moment).2 := by
    unfold handshakeInitSize at long
    simp only [replayed, responder.decapsulate_of_initiation crypto source dst moment typed]
    rw [if_neg (by omega)]
  rw [handled]
  constructor
  · intro short
    rw [Tunn.handleHandshakeInit, if_neg (show ¬ packet.length < 148 from Nat.not_lt.mpr long),
      if_pos (show dst.length < 92 from short)]
    exact ⟨rfl, rfl⟩
  · intro room encrypts
    obtain ⟨sendKey, recvKey, handshake, answer, result⟩ :=
      responder.handleHandshakeInit_of_authentic crypto moment ok room encrypts
    rw [result]
    exact ⟨rfl, sendKey, recvKey, rfl⟩

/-- A responder for the sample initiator. -/
def sampleTunnel : Tunn :=
  .new .checksums (Primitives.byteKey 5) (Primitives.byteKey 3) none none 2

def sampleInitiation : Bytes := Handshake.sampleInitiator.1.toOption.getD []

/-- The first delivery of the sample initiation. -/
def sampleDelivery : Call :=
  .decapsulate none sampleInitiation (.replicate 92 0) (Handshake.sampleMoment 0 11)

/-- The same bytes a second later give another current session. -/
theorem replay_replaces_session :
    let responder := Run.after (step .checksums) (start sampleTunnel) [sampleDelivery]
    let replayed := (responder.tunnel.decapsulate .checksums none sampleInitiation
      (.replicate 92 0) (sampleMoment 1000000000 13)).2
    sampleInitiation ∈ responder.accepted ∧
      replayed.currentSession ≠ responder.tunnel.currentSession ∧
      replayed.previousSession ≠ responder.tunnel.previousSession := by
  decide +kernel

/-- The answer to the replay does not fit its buffer. -/
theorem replayed_initiation_short :
    let responder := (Run.after (step .checksums) (start sampleTunnel) [sampleDelivery]).tunnel
    let replayed := (responder.decapsulate .checksums none sampleInitiation
      (.replicate 64 0) (sampleMoment 1 13)).2
    replayed.currentSession = responder.currentSession ∧
      replayed.previousSession = responder.previousSession :=
  (replayed_initiation .checksums sampleTunnel [sampleDelivery] sampleInitiation
    (by decide +kernel) none (.replicate 64 0) (sampleMoment 1 13)).1 (by decide)

end Responder

end Warp.Noise
