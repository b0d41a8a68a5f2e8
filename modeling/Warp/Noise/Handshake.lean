import Warp.Noise.Transport

/-! # The Noise handshake

A handshake keeps the chaining key and the hash of the messages so far, the indices of both sides
and the ephemeral keys. Reading a message writes these fields before the checks that can fail, so a
rejected message changes the handshake unless it is refused at once or the fields already hold what
it leads to (`Handshake.unchanged_iff`).
-/

namespace Warp.Noise

open Bytes Nat

def handshakeInitSize : ℕ := 148

def handshakeResponseSize : ℕ := 92

inductive HandshakeState where
  | none
  | initiationSent
  | responseSent
  | complete
deriving DecidableEq

structure Transcript where
  chainingKey : Key
  hash : Key
deriving DecidableEq

namespace Transcript

variable (crypto : Primitives)

/-- The transcript before the first message to a responder with this static public key. -/
def initial (responder : Key) : Transcript :=
  let chainingKey := crypto.hash Primitives.noiseProtocolName
  let hash := crypto.hashMany [chainingKey.toList, Primitives.wgIdentifier]
  ⟨chainingKey, crypto.hashMany [hash.toList, responder.toList]⟩

def mixHash (transcript : Transcript) (data : Bytes) : Transcript :=
  { transcript with hash := crypto.hashMany [transcript.hash.toList, data] }

/-- Mix an input into the chaining key, with a key to encrypt with. -/
def mixKey (transcript : Transcript) (input : Bytes) : Transcript × Key :=
  let derived := crypto.hkdf2 transcript.chainingKey input
  ({ transcript with chainingKey := derived.1 }, derived.2)

/-- Mix in the preshared key, with a key to encrypt with. -/
def mixPresharedKey (transcript : Transcript) (presharedKey : Option Key) : Transcript × Key :=
  let psk := presharedKey.getD (.replicate 32 0)
  let derived := crypto.hkdf3 transcript.chainingKey psk.toList
  (mixHash crypto { transcript with chainingKey := derived.1 } derived.2.1.toList, derived.2.2)

def mixEphemeral (transcript : Transcript) (ephemeral : Key) : Transcript :=
  (transcript.mixKey crypto ephemeral.toList).1.mixHash crypto ephemeral.toList

end Transcript

open Transcript

structure TransportKeys where
  sendKey : Key
  recvKey : Key
  ourIndex : UInt32
  peerIndex : UInt32
deriving DecidableEq

structure Identity where
  staticPrivate : Key
  staticPublic : Key
  peerStaticPublic : Key
  presharedKey : Option Key
deriving DecidableEq

structure Handshake extends Identity, Transcript where
  state : HandshakeState
  ephemeralPrivate : Option Key
  ephemeralPublic : Option Key
  peerEphemeralPublic : Option Key
  ourIndex : UInt32
  peerIndex : UInt32
  lastInitiation : Option ℕ
  transportKeys : Option TransportKeys
deriving DecidableEq

/-- What a call reads from its surroundings: the monotonic clock, the system clock in seconds
and nanoseconds, and a new ephemeral secret. -/
structure Moment where
  now : ℕ
  seconds : UInt64
  nanoseconds : UInt32
  secret : Key

def Moment.timestamp (moment : Moment) : Bytes :=
  Bytes.beBytes 8 (moment.seconds + 0x400000000000000a).toNat ++
    Bytes.beBytes 4 moment.nanoseconds.toNat

def messageByte (packet : Bytes) : UInt8 := packet.getD 0 0

def indexAt (packet : Bytes) (position : ℕ) : UInt32 :=
  .ofNat (Bytes.leValue (Bytes.slice packet position (position + 4)))

def keyAt (packet : Bytes) (position : ℕ) : Key :=
  Bytes.toVector 32 (Bytes.slice packet position (position + 32))

namespace Handshake

variable (crypto : Primitives)

def new (identity : Identity) : Handshake :=
  { identity, Transcript.initial crypto identity.peerStaticPublic with
    state := .none
    ephemeralPrivate := none
    ephemeralPublic := none
    peerEphemeralPublic := none
    ourIndex := 0
    peerIndex := 0
    lastInitiation := none
    transportKeys := none }

variable (handshake : Handshake)

/-- The first 16 bytes of the MAC over a message, and a second MAC of zeros. -/
def macs (message : Bytes) : Bytes :=
  let mac1Key := crypto.hashMany ["mac1----".toUTF8.toList, handshake.peerStaticPublic.toList]
  let mac1 := crypto.hmac mac1Key.toList message
  mac1.toList.take 16 ++ .replicate 16 0

/-- Create handshake initiation message. The message is what the buffer then starts with. -/
def createInitiation (senderIndex : UInt32) (dst : Bytes) (moment : Moment) :
    Except WireGuardError Bytes × Handshake :=
  if dst.length < handshakeInitSize then (.error .destinationBufferTooSmall, handshake)
  else
    let ephemeralPublic := crypto.publicKey moment.secret
    let handshake := { handshake with
      toTranscript := .initial crypto handshake.peerStaticPublic
      ourIndex := senderIndex
      ephemeralPrivate := some moment.secret
      ephemeralPublic := some ephemeralPublic }
    let transcript := handshake.toTranscript.mixEphemeral crypto ephemeralPublic
    -- DH: ephemeral-static
    let (transcript, key) := transcript.mixKey crypto
      (crypto.diffieHellman moment.secret handshake.peerStaticPublic).toList
    match crypto.aeadEncrypt key 0 handshake.staticPublic.toList transcript.hash.toList
        (Bytes.slice dst 40 88) with
    | .error failure => (.error failure, { handshake with toTranscript := transcript })
    | .ok (_, encryptedStatic) =>
      let transcript := transcript.mixHash crypto encryptedStatic
      -- DH: static-static
      let (transcript, key) := transcript.mixKey crypto
        (crypto.diffieHellman handshake.staticPrivate handshake.peerStaticPublic).toList
      match crypto.aeadEncrypt key 0 moment.timestamp transcript.hash.toList
          (Bytes.slice dst 88 116) with
      | .error failure => (.error failure, { handshake with toTranscript := transcript })
      | .ok (_, encryptedTimestamp) =>
        let message := [1, 0, 0, 0] ++ Bytes.leBytes 4 senderIndex.toNat ++
          ephemeralPublic.toList ++ encryptedStatic ++ encryptedTimestamp
        (.ok (message ++ handshake.macs crypto message), { handshake with
          toTranscript := transcript.mixHash crypto encryptedTimestamp
          state := .initiationSent
          lastInitiation := some moment.now })

/-- Process incoming handshake initiation. The timestamp is decrypted, but not compared with
earlier ones. -/
def consumeInitiation (packet : Bytes) : Except WireGuardError Unit × Handshake :=
  if packet.length < handshakeInitSize then (.error .invalidPacket, handshake)
  else if messageByte packet ≠ 1 then (.error .wrongMessageType, handshake)
  else
    let peerEphemeral := keyAt packet 8
    let handshake := { handshake with
      toTranscript := .initial crypto handshake.staticPublic
      peerIndex := indexAt packet 4
      peerEphemeralPublic := some peerEphemeral }
    let transcript := handshake.toTranscript.mixEphemeral crypto peerEphemeral
    -- DH: static-ephemeral
    let (transcript, key) := transcript.mixKey crypto
      (crypto.diffieHellman handshake.staticPrivate peerEphemeral).toList
    let encryptedStatic := Bytes.slice packet 40 88
    match crypto.aeadDecrypt key 0 encryptedStatic transcript.hash.toList (.replicate 32 0) with
    | .error failure => (.error failure, { handshake with toTranscript := transcript })
    | .ok (_, peerStaticBytes) =>
      if peerStaticBytes ≠ handshake.peerStaticPublic.toList then
        (.error .invalidPublicKey, { handshake with toTranscript := transcript })
      else
        let transcript := transcript.mixHash crypto encryptedStatic
        -- DH: static-static
        let (transcript, key) := transcript.mixKey crypto
          (crypto.diffieHellman handshake.staticPrivate handshake.peerStaticPublic).toList
        let encryptedTimestamp := Bytes.slice packet 88 116
        match crypto.aeadDecrypt key 0 encryptedTimestamp transcript.hash.toList
            (.replicate 12 0) with
        | .error failure => (.error failure, { handshake with toTranscript := transcript })
        | .ok _ => (.ok (), { handshake with
            toTranscript := transcript.mixHash crypto encryptedTimestamp
            state := .initiationSent })

/-- Create handshake response message. The message is what the buffer then starts with. -/
def createResponse (senderIndex : UInt32) (dst : Bytes) (moment : Moment) :
    Except WireGuardError Bytes × Handshake :=
  if dst.length < handshakeResponseSize then (.error .destinationBufferTooSmall, handshake)
  else
    let ephemeralPublic := crypto.publicKey moment.secret
    let transcript := handshake.toTranscript.mixEphemeral crypto ephemeralPublic
    let handshake := { handshake with
      toTranscript := transcript
      ourIndex := senderIndex
      ephemeralPrivate := some moment.secret
      ephemeralPublic := some ephemeralPublic }
    match handshake.peerEphemeralPublic with
    | none => (.error .handshakeFailed, handshake)
    | some peerEphemeral =>
      -- DH: ephemeral-ephemeral, then ephemeral-static
      let transcript := (transcript.mixKey crypto
        (crypto.diffieHellman moment.secret peerEphemeral).toList).1
      let transcript := (transcript.mixKey crypto
        (crypto.diffieHellman moment.secret handshake.peerStaticPublic).toList).1
      let (transcript, key) := transcript.mixPresharedKey crypto handshake.presharedKey
      match crypto.aeadEncrypt key 0 [] transcript.hash.toList (Bytes.slice dst 44 60) with
      | .error failure => (.error failure, { handshake with toTranscript := transcript })
      | .ok (_, encryptedNothing) =>
        let message := [2, 0, 0, 0] ++ Bytes.leBytes 4 senderIndex.toNat ++
          Bytes.leBytes 4 handshake.peerIndex.toNat ++ ephemeralPublic.toList ++
          encryptedNothing
        (.ok (message ++ handshake.macs crypto message), { handshake with
          toTranscript := transcript.mixHash crypto encryptedNothing
          state := .responseSent })

def consumeResponse (packet : Bytes) : Except WireGuardError Unit × Handshake :=
  if packet.length < handshakeResponseSize then (.error .invalidPacket, handshake)
  else if messageByte packet ≠ 2 then (.error .wrongMessageType, handshake)
  else if handshake.state ≠ .initiationSent then (.error .handshakeFailed, handshake)
  else
    let handshake := { handshake with peerIndex := indexAt packet 4 }
    if indexAt packet 8 ≠ handshake.ourIndex then (.error .invalidPacket, handshake)
    else
      let peerEphemeral := keyAt packet 12
      let transcript := handshake.toTranscript.mixEphemeral crypto peerEphemeral
      let handshake := { handshake with
        toTranscript := transcript
        peerEphemeralPublic := some peerEphemeral }
      match handshake.ephemeralPrivate with
      | none => (.error .handshakeFailed, handshake)
      | some ephemeralPrivate =>
        -- DH: ephemeral-ephemeral, then static-ephemeral
        let transcript := (transcript.mixKey crypto
          (crypto.diffieHellman ephemeralPrivate peerEphemeral).toList).1
        let transcript := (transcript.mixKey crypto
          (crypto.diffieHellman handshake.staticPrivate peerEphemeral).toList).1
        let (transcript, key) := transcript.mixPresharedKey crypto handshake.presharedKey
        let encryptedNothing := Bytes.slice packet 44 60
        match crypto.aeadDecrypt key 0 encryptedNothing transcript.hash.toList [] with
        | .error failure => (.error failure, { handshake with toTranscript := transcript })
        | .ok _ => (.ok (), { handshake with
            toTranscript := transcript.mixHash crypto encryptedNothing
            state := .complete })

def deriveSession (isInitiator : Bool) (now : ℕ) : Option TransportSession × Handshake :=
  if handshake.state ≠ .responseSent ∧ handshake.state ≠ .complete then (none, handshake)
  else
    let (t1, t2) := crypto.hkdf2 handshake.chainingKey []
    let (sendKey, recvKey) := if isInitiator then (t1, t2) else (t2, t1)
    (some (.new sendKey recvKey handshake.ourIndex handshake.peerIndex now),
      { handshake with
        transportKeys := some ⟨sendKey, recvKey, handshake.ourIndex, handshake.peerIndex⟩
        ephemeralPrivate := none
        state := .complete })

end Handshake

namespace Identity

variable (crypto : Primitives) (identity : Identity) (packet : Bytes)

/-- The transcript and the key for the static key in an initiation. -/
def staticStage : Transcript × Key :=
  ((Transcript.initial crypto identity.staticPublic).mixEphemeral crypto (keyAt packet 8)).mixKey
    crypto (crypto.diffieHellman identity.staticPrivate (keyAt packet 8)).toList

/-- The transcript and the key for the timestamp in an initiation. -/
def timestampStage : Transcript × Key :=
  ((identity.staticStage crypto packet).1.mixHash crypto (Bytes.slice packet 40 88)).mixKey
    crypto (crypto.diffieHellman identity.staticPrivate identity.peerStaticPublic).toList

def fromPeer : Bool :=
  let (transcript, key) := identity.staticStage crypto packet
  match crypto.aeadDecrypt key 0 (Bytes.slice packet 40 88) transcript.hash.toList
      (.replicate 32 0) with
  | .error _ => false
  | .ok (_, peerStaticBytes) => peerStaticBytes = identity.peerStaticPublic.toList

def dated : Bool :=
  let (transcript, key) := identity.timestampStage crypto packet
  (crypto.aeadDecrypt key 0 (Bytes.slice packet 88 116) transcript.hash.toList
    (.replicate 12 0)).isOk

end Identity

namespace Handshake

variable (crypto : Primitives) (handshake : Handshake) (packet : Bytes)

def withInitiation (transcript : Transcript) : Handshake :=
  { handshake with
    toTranscript := transcript
    peerIndex := indexAt packet 4
    peerEphemeralPublic := some (keyAt packet 8) }

/-- What reading an initiation does: it is refused at once, fails at the static key or at the
timestamp, or succeeds. -/
theorem consumeInitiation_cases :
    ((packet.length < handshakeInitSize ∨ messageByte packet ≠ 1) ∧
      ∃ failure, handshake.consumeInitiation crypto packet = (.error failure, handshake)) ∨
    ((handshakeInitSize ≤ packet.length ∧ messageByte packet = 1) ∧
      ((handshake.fromPeer crypto packet = false ∧
        ∃ failure, handshake.consumeInitiation crypto packet =
          (.error failure,
            handshake.withInitiation packet (handshake.staticStage crypto packet).1)) ∨
      (handshake.fromPeer crypto packet = true ∧ handshake.dated crypto packet = false ∧
        ∃ failure, handshake.consumeInitiation crypto packet =
          (.error failure,
            handshake.withInitiation packet (handshake.timestampStage crypto packet).1)) ∨
      (handshake.fromPeer crypto packet = true ∧ handshake.dated crypto packet = true ∧
        handshake.consumeInitiation crypto packet =
          (.ok (), { handshake.withInitiation packet
            ((handshake.timestampStage crypto packet).1.mixHash crypto
              (slice packet 88 116)) with state := .initiationSent })))) := by
  unfold consumeInitiation
  split
  next short => exact .inl ⟨.inl short, _, rfl⟩
  next long =>
    split
    next other => exact .inl ⟨.inr other, _, rfl⟩
    next typed =>
      refine .inr ⟨⟨not_lt.mp long, not_not.mp typed⟩, ?_⟩
      simp only [Identity.fromPeer, Identity.dated, Identity.timestampStage,
        Identity.staticStage, mixKey, withInitiation]
      generalize crypto.aeadDecrypt _ 0 (slice packet 40 88) _ (.replicate 32 0) = static
      generalize crypto.aeadDecrypt _ 0 (slice packet 88 116) _ (.replicate 12 0) = date
      cases static with
      | error failure => exact .inl ⟨rfl, failure, rfl⟩
      | ok static =>
        by_cases peer : static.2 = handshake.peerStaticPublic.toList
        · refine .inr ?_
          simp only [peer, decide_true, ne_eq, not_true_eq_false, if_false, true_and]
          cases date with
          | error failure => exact .inl ⟨rfl, failure, rfl⟩
          | ok date => exact .inr ⟨rfl, rfl⟩
        · refine .inl ?_
          simp only [peer, decide_false, ne_eq, not_false_eq_true, if_true, true_and]
          exact ⟨_, rfl⟩

/-- The transcript and the key for the empty payload of a response. -/
def payloadStage (ephemeralPrivate : Key) : Transcript × Key :=
  let peerEphemeral := keyAt packet 12
  let transcript := handshake.toTranscript.mixEphemeral crypto peerEphemeral
  let transcript := (transcript.mixKey crypto
    (crypto.diffieHellman ephemeralPrivate peerEphemeral).toList).1
  let transcript := (transcript.mixKey crypto
    (crypto.diffieHellman handshake.staticPrivate peerEphemeral).toList).1
  transcript.mixPresharedKey crypto handshake.presharedKey

/-- The transcript up to the empty payload of a response, or up to its ephemeral key if there is
no own one. -/
def responseTranscript : Transcript :=
  match handshake.ephemeralPrivate with
  | none => handshake.toTranscript.mixEphemeral crypto (keyAt packet 12)
  | some ephemeralPrivate => (handshake.payloadStage crypto packet ephemeralPrivate).1

def answered : Bool :=
  match handshake.ephemeralPrivate with
  | none => false
  | some ephemeralPrivate =>
    let (transcript, key) := handshake.payloadStage crypto packet ephemeralPrivate
    (crypto.aeadDecrypt key 0 (Bytes.slice packet 44 60) transcript.hash.toList []).isOk

def withResponse (transcript : Transcript) : Handshake :=
  { handshake with
    toTranscript := transcript
    peerIndex := indexAt packet 4
    peerEphemeralPublic := some (keyAt packet 12) }

/-- What reading a response does: it is refused at once, names another receiver, fails at the
empty payload, or succeeds. -/
theorem consumeResponse_cases :
    ((packet.length < handshakeResponseSize ∨ messageByte packet ≠ 2 ∨
        handshake.state ≠ .initiationSent) ∧
      ∃ failure, handshake.consumeResponse crypto packet = (.error failure, handshake)) ∨
    ((handshakeResponseSize ≤ packet.length ∧ messageByte packet = 2 ∧
        handshake.state = .initiationSent) ∧
      ((indexAt packet 8 ≠ handshake.ourIndex ∧
        ∃ failure, handshake.consumeResponse crypto packet =
          (.error failure, { handshake with peerIndex := indexAt packet 4 })) ∨
      (indexAt packet 8 = handshake.ourIndex ∧ handshake.answered crypto packet = false ∧
        ∃ failure, handshake.consumeResponse crypto packet =
          (.error failure,
            handshake.withResponse packet (handshake.responseTranscript crypto packet))) ∨
      (indexAt packet 8 = handshake.ourIndex ∧ handshake.answered crypto packet = true ∧
        handshake.consumeResponse crypto packet =
          (.ok (), { handshake.withResponse packet
            ((handshake.responseTranscript crypto packet).mixHash crypto
              (slice packet 44 60)) with state := .complete })))) := by
  unfold consumeResponse
  split
  next short => exact .inl ⟨.inl short, _, rfl⟩
  next long =>
    split
    next other => exact .inl ⟨.inr (.inl other), _, rfl⟩
    next typed =>
      split
      next idle => exact .inl ⟨.inr (.inr idle), _, rfl⟩
      next waiting =>
        refine .inr ⟨⟨not_lt.mp long, not_not.mp typed, not_not.mp waiting⟩, ?_⟩
        by_cases ours : indexAt packet 8 = handshake.ourIndex
        · refine .inr ?_
          simp only [ours, ne_eq, not_true_eq_false, if_false, true_and, answered,
            responseTranscript, withResponse]
          cases handshake.ephemeralPrivate with
          | none => exact .inl ⟨rfl, _, rfl⟩
          | some ephemeralPrivate =>
            simp only [payloadStage, mixPresharedKey]
            generalize crypto.aeadDecrypt _ 0 (slice packet 44 60) _ [] = payload
            cases payload with
            | error failure => exact .inl ⟨rfl, failure, rfl⟩
            | ok payload => exact .inr ⟨rfl, rfl⟩
        · simp only [ours, ne_eq, not_false_eq_true, if_true, true_and]
          exact .inl ⟨_, rfl⟩

end Handshake

inductive HandshakeMessage where
  | initiation (packet : Bytes)
  | response (packet : Bytes)

namespace Handshake

variable (crypto : Primitives) (handshake : Handshake) (packet : Bytes) (transcript : Transcript)

def consume (handshake : Handshake) :
    HandshakeMessage → Except WireGuardError Unit × Handshake
  | .initiation packet => handshake.consumeInitiation crypto packet
  | .response packet => handshake.consumeResponse crypto packet

/-- The message is refused before anything is written, is authentic, or finds the handshake
with the fields it would write. -/
def Undisturbed (handshake : Handshake) : HandshakeMessage → Prop
  | .initiation packet =>
    packet.length < handshakeInitSize ∨ messageByte packet ≠ 1 ∨
    (handshake.fromPeer crypto packet = true ∧ handshake.dated crypto packet = true) ∨
    (handshake.peerIndex = indexAt packet 4 ∧
      handshake.peerEphemeralPublic = some (keyAt packet 8) ∧
      handshake.toTranscript = if handshake.fromPeer crypto packet
        then (handshake.timestampStage crypto packet).1
        else (handshake.staticStage crypto packet).1)
  | .response packet =>
    packet.length < handshakeResponseSize ∨ messageByte packet ≠ 2 ∨
    handshake.state ≠ .initiationSent ∨
    (indexAt packet 8 = handshake.ourIndex ∧ handshake.answered crypto packet = true) ∨
    (handshake.peerIndex = indexAt packet 4 ∧
      (indexAt packet 8 ≠ handshake.ourIndex ∨
        handshake.peerEphemeralPublic = some (keyAt packet 12) ∧
          handshake.toTranscript = handshake.responseTranscript crypto packet))

instance (handshake : Handshake) (message : HandshakeMessage) :
    Decidable (handshake.Undisturbed crypto message) := by
  cases message <;> unfold Undisturbed <;> infer_instance

theorem withInitiation_eq_iff :
    handshake.withInitiation packet transcript = handshake ↔
      handshake.peerIndex = indexAt packet 4 ∧
        handshake.peerEphemeralPublic = some (keyAt packet 8) ∧
        handshake.toTranscript = transcript := by
  cases handshake
  simp only [withInitiation, Handshake.mk.injEq, true_and, and_true]
  tauto

theorem withResponse_eq_iff :
    handshake.withResponse packet transcript = handshake ↔
      handshake.peerIndex = indexAt packet 4 ∧
        handshake.peerEphemeralPublic = some (keyAt packet 12) ∧
        handshake.toTranscript = transcript := by
  cases handshake
  simp only [withResponse, Handshake.mk.injEq, true_and, and_true]
  tauto

/-- A rejected message leaves the handshake as it was exactly under this condition. -/
theorem unchanged_iff (message : HandshakeMessage) :
    (∀ failure, (handshake.consume crypto message).1 = .error failure →
      (handshake.consume crypto message).2 = handshake) ↔ handshake.Undisturbed crypto message := by
  cases message with
  | initiation packet =>
    simp only [consume, Undisturbed]
    rcases handshake.consumeInitiation_cases crypto packet with
      ⟨refused, failure, result⟩ | ⟨⟨long, typed⟩, stranger | undated | authentic⟩
    · rw [result]
      refine iff_of_true (fun _ _ => rfl) ?_
      tauto
    · obtain ⟨stranger, failure, result⟩ := stranger
      rw [result]
      simp [withInitiation_eq_iff, stranger, typed, not_lt.mpr long]
    · obtain ⟨peer, undated, failure, result⟩ := undated
      rw [result]
      simp [withInitiation_eq_iff, peer, undated, typed, not_lt.mpr long]
    · obtain ⟨peer, dated, result⟩ := authentic
      rw [result]
      exact iff_of_true nofun (.inr (.inr (.inl ⟨peer, dated⟩)))
  | response packet =>
    simp only [consume, Undisturbed]
    rcases handshake.consumeResponse_cases crypto packet with
      ⟨refused, failure, result⟩ | ⟨⟨long, typed, waiting⟩, misdirected | unanswered | authentic⟩
    · rw [result]
      refine iff_of_true (fun _ _ => rfl) ?_
      tauto
    · obtain ⟨other, failure, result⟩ := misdirected
      have same : { handshake with peerIndex := indexAt packet 4 } = handshake ↔
          handshake.peerIndex = indexAt packet 4 := by
        cases handshake
        simp only [Handshake.mk.injEq, true_and, and_true]
        exact eq_comm
      rw [result]
      constructor
      · intro unchanged
        exact .inr (.inr (.inr (.inr ⟨same.mp (unchanged failure rfl), .inl other⟩)))
      · intro condition _ _
        have indexed : handshake.peerIndex = indexAt packet 4 := by
          simpa [other, typed, waiting, not_lt.mpr long] using condition
        exact same.mpr indexed
    · obtain ⟨ours, unanswered, failure, result⟩ := unanswered
      rw [result]
      simp [withResponse_eq_iff, ours, unanswered, typed, waiting, not_lt.mpr long]
    · obtain ⟨ours, answered, result⟩ := authentic
      rw [result]
      exact iff_of_true nofun (.inr (.inr (.inr (.inl ⟨ours, answered⟩))))

def afterMessage (handshake : Handshake) (message : HandshakeMessage) : Handshake :=
  (handshake.consume crypto message).2

/-- A message that is rejected without effect. -/
def Ignores (handshake : Handshake) (message : HandshakeMessage) : Prop :=
  (handshake.consume crypto message).1.isOk = false ∧ handshake.Undisturbed crypto message

theorem after_ignored (messages : List HandshakeMessage)
    (ignored : Run.Guarded (afterMessage crypto) (Ignores crypto) handshake messages) :
    Run.after (afterMessage crypto) handshake messages = handshake := by
  refine Run.invariant (· = handshake) ?_ rfl ignored
  rintro state message same ⟨rejected, undisturbed⟩
  cases result : (state.consume crypto message).1 with
  | ok value => simp [result, Except.isOk, Except.toBool] at rejected
  | error failure =>
    have unchanged := (unchanged_iff crypto state message).mpr undisturbed failure result
    exact unchanged.trans same

/-- A rejected message leaves the handshake alone exactly if it is undisturbed by it; after any
number of such messages a response is treated as if they had not come. -/
theorem rejected_messages_ignored_iff :
    (∀ handshake message,
      (∀ failure, (consume crypto handshake message).1 = .error failure →
        (consume crypto handshake message).2 = handshake) ↔ Undisturbed crypto handshake message) ∧
    ∀ handshake messages response,
      Run.Guarded (afterMessage crypto) (Ignores crypto) handshake messages →
        (Run.after (afterMessage crypto) handshake messages).consumeResponse crypto response =
          handshake.consumeResponse crypto response := by
  refine ⟨unchanged_iff crypto, ?_⟩
  intro handshake messages response ignored
  rw [after_ignored crypto handshake messages ignored]

section Frames
variable (handshake : Handshake) (packet dst : Bytes) (senderIndex : UInt32) (moment : Moment)
  (isInitiator : Bool) {message : Bytes} (now : ℕ)

@[simp] theorem createInitiation_identity :
    (handshake.createInitiation crypto senderIndex dst moment).2.toIdentity =
      handshake.toIdentity := by
  unfold createInitiation
  split
  · rfl
  · dsimp only [Transcript.mixKey]
    split
    · rfl
    · split <;> rfl

@[simp] theorem consumeInitiation_identity :
    (handshake.consumeInitiation crypto packet).2.toIdentity = handshake.toIdentity := by
  rcases handshake.consumeInitiation_cases crypto packet with
    ⟨-, _, result⟩ | ⟨-, ⟨-, _, result⟩ | ⟨-, -, _, result⟩ | ⟨-, -, result⟩⟩ <;>
  simp only [result, withInitiation]

@[simp] theorem createResponse_identity :
    (handshake.createResponse crypto senderIndex dst moment).2.toIdentity =
      handshake.toIdentity := by
  unfold createResponse
  split
  · rfl
  · dsimp only [Transcript.mixPresharedKey]
    split
    · rfl
    · split <;> rfl

@[simp] theorem consumeResponse_identity :
    (handshake.consumeResponse crypto packet).2.toIdentity = handshake.toIdentity := by
  rcases handshake.consumeResponse_cases crypto packet with
    ⟨-, _, result⟩ | ⟨-, ⟨-, _, result⟩ | ⟨-, -, _, result⟩ | ⟨-, -, result⟩⟩ <;>
  simp only [result, withResponse]

@[simp] theorem deriveSession_identity :
    (handshake.deriveSession crypto isInitiator now).2.toIdentity = handshake.toIdentity := by
  unfold deriveSession
  split <;> rfl

/-- An initiation is accepted by what the long-term keys say about it. -/
theorem consumeInitiation_fst_eq_ok_iff :
    (handshake.consumeInitiation crypto packet).1 = .ok () ↔
      (handshakeInitSize ≤ packet.length ∧ messageByte packet = 1) ∧
        handshake.fromPeer crypto packet = true ∧ handshake.dated crypto packet = true := by
  rcases handshake.consumeInitiation_cases crypto packet with
    ⟨refused, _, result⟩ | ⟨read, ⟨stranger, _, result⟩ | ⟨-, undated, _, result⟩ |
      ⟨peer, dated, result⟩⟩
  · rw [result]
    refine iff_of_false nofun ?_
    rintro ⟨⟨long, typed⟩, -⟩
    rcases refused with short | other
    · exact not_lt.mpr long short
    · exact other typed
  · simp [result, stranger]
  · simp [result, undated]
  · rw [result]
    exact iff_of_true rfl ⟨read, peer, dated⟩

theorem consumeInitiation_of_ok
    (accepted : (handshake.consumeInitiation crypto packet).1 = .ok ()) :
    (handshake.consumeInitiation crypto packet).2.peerIndex = indexAt packet 4 ∧
    (handshake.consumeInitiation crypto packet).2.peerEphemeralPublic = some (keyAt packet 8) := by
  rcases handshake.consumeInitiation_cases crypto packet with
    ⟨-, _, result⟩ | ⟨-, ⟨-, _, result⟩ | ⟨-, -, _, result⟩ | ⟨-, -, result⟩⟩
  · rw [result] at accepted
    cases accepted
  · rw [result] at accepted
    cases accepted
  · rw [result] at accepted
    cases accepted
  · rw [result]
    exact ⟨rfl, rfl⟩

theorem consumeResponse_of_ok (accepted : (handshake.consumeResponse crypto packet).1 = .ok ()) :
    (handshake.consumeResponse crypto packet).2.state = .complete ∧
    (handshake.consumeResponse crypto packet).2.ourIndex = indexAt packet 8 ∧
    (handshake.consumeResponse crypto packet).2.peerIndex = indexAt packet 4 := by
  rcases handshake.consumeResponse_cases crypto packet with
    ⟨-, _, result⟩ | ⟨-, ⟨-, _, result⟩ | ⟨-, -, _, result⟩ | ⟨ours, -, result⟩⟩
  · rw [result] at accepted
    cases accepted
  · rw [result] at accepted
    cases accepted
  · rw [result] at accepted
    cases accepted
  · rw [result]
    exact ⟨rfl, ours.symm, rfl⟩

theorem createInitiation_message
    (created : (handshake.createInitiation crypto senderIndex dst moment).1 = .ok message) :
    ∃ rest, message = [1, 0, 0, 0] ++ (leBytes 4 senderIndex.toNat ++ rest) := by
  unfold createInitiation at created
  split at created
  · cases created
  · dsimp only [mixKey] at created
    split at created
    · cases created
    · split at created
      · cases created
      · cases created
        exact ⟨_, by simp only [List.append_assoc]; rfl⟩

/-- A response names both sides and leaves the handshake ready for a session. -/
theorem createResponse_message
    (created : (handshake.createResponse crypto senderIndex dst moment).1 = .ok message) :
    (∃ rest, message = [2, 0, 0, 0] ++ (leBytes 4 senderIndex.toNat ++
      (leBytes 4 handshake.peerIndex.toNat ++ rest))) ∧
    (handshake.createResponse crypto senderIndex dst moment).2.state = .responseSent ∧
    (handshake.createResponse crypto senderIndex dst moment).2.ourIndex = senderIndex ∧
    (handshake.createResponse crypto senderIndex dst moment).2.peerIndex = handshake.peerIndex := by
  revert created
  unfold createResponse
  split
  · exact nofun
  · dsimp only [mixPresharedKey]
    cases handshake.peerEphemeralPublic with
    | none => exact nofun
    | some peerEphemeral =>
      dsimp only
      generalize crypto.aeadEncrypt _ 0 [] _ (slice dst 44 60) = payload
      cases payload with
      | error failure => exact nofun
      | ok payload =>
        intro created
        cases created
        exact ⟨⟨_, by simp only [List.append_assoc]; rfl⟩, rfl, rfl, rfl⟩

theorem exists_createResponse_eq_ok {peerEphemeral : Key}
    (known : handshake.peerEphemeralPublic = some peerEphemeral)
    (room : handshakeResponseSize ≤ dst.length)
    (encrypts : ∀ key nonce aad, ∃ tag, crypto.encrypt key nonce [] aad = some tag ∧
      tag.length = tagLen) :
    ∃ message, (handshake.createResponse crypto senderIndex dst moment).1 = .ok message := by
  unfold createResponse
  rw [if_neg (not_lt.mpr room)]
  dsimp only [mixPresharedKey]
  rw [known]
  dsimp only
  generalize sealed : crypto.aeadEncrypt _ 0 [] _ (slice dst 44 60) = payload
  cases payload with
  | ok payload => exact ⟨_, rfl⟩
  | error failure =>
    obtain ⟨tag, encrypted, length⟩ := encrypts _ (Primitives.nonce 0) _
    have fits : tag.length ≤ (slice dst 44 60).length := by
      rw [length, slice, List.length_take, List.length_drop]
      unfold handshakeResponseSize at room
      exact le_min (le_refl 16) (by rw [tagLen]; omega)
    have succeeded := (Primitives.aeadEncrypt_eq_ok_iff crypto).mpr ⟨tag, encrypted, fits, rfl⟩
    rw [sealed] at succeeded
    cases succeeded

theorem deriveSession_of_complete
    (complete : handshake.state = .responseSent ∨ handshake.state = .complete) :
    ∃ sendKey recvKey, (handshake.deriveSession crypto isInitiator now).1 =
      some (.new sendKey recvKey handshake.ourIndex handshake.peerIndex now) := by
  unfold deriveSession
  rw [if_neg (by tauto)]
  exact ⟨_, _, rfl⟩

end Frames

/-- Long-term keys for the checksum primitives. -/
def sampleIdentity (own peer : UInt8) : Identity :=
  ⟨Primitives.byteKey own, Primitives.byteKey own, Primitives.byteKey peer, none⟩

def sampleMoment (now : ℕ) (secret : UInt8) : Moment := ⟨now, 0, 0, Primitives.byteKey secret⟩

/-- An initiator that waits for a response, with its message. -/
def sampleInitiator : Except WireGuardError Bytes × Handshake :=
  (new .checksums (sampleIdentity 3 5)).createInitiation .checksums 1 (.replicate 148 0)
    (sampleMoment 0 7)

/-- The responder's message to it. -/
def sampleResponse : Bytes :=
  let initiation := sampleInitiator.1.toOption.getD []
  let responder := ((new .checksums (sampleIdentity 5 3)).consumeInitiation .checksums initiation).2
  (responder.createResponse .checksums 2 (.replicate 92 0) (sampleMoment 0 11)).1.toOption.getD []

/-- A response with a wrong tag is rejected, but the genuine response is then rejected too. -/
theorem forged_response_disturbs :
    let waiting := sampleInitiator.2
    let forged := sampleResponse.set 44 (sampleResponse.getD 44 0 + 1)
    (waiting.consumeResponse .checksums forged).1 = .error .decryptionFailed ∧
      (waiting.consumeResponse .checksums forged).2 ≠ waiting ∧
      (waiting.consumeResponse .checksums sampleResponse).1 = .ok () ∧
      ((waiting.consumeResponse .checksums forged).2.consumeResponse .checksums
        sampleResponse).1 = .error .decryptionFailed := by
  decide +kernel

/-- Too short a packet and one of another type before the genuine response. -/
theorem rejected_messages_ignored_short :
    ((Run.after (afterMessage .checksums) sampleInitiator.2
      [.response [2], .initiation (.replicate 148 4)]).consumeResponse .checksums
        sampleResponse).1 = .ok () := by
  rw [(rejected_messages_ignored_iff .checksums).2 sampleInitiator.2
    [.response [2], .initiation (.replicate 148 4)] sampleResponse
    ⟨⟨by decide +kernel, by decide +kernel⟩, ⟨by decide +kernel, by decide +kernel⟩, trivial⟩]
  decide +kernel

end Handshake

end Warp.Noise
