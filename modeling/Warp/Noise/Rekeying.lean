import Warp.Noise.Link

/-! # Packets in flight while keys change

In every run of a link, each end keeps counters of data that it was given out of its windows, and
nothing else (`Link.consistent_after`). So a packet that comes for the first time is decapsulated
exactly if the receiver's current session is the one it was made under (`Link.decapsulated_iff`).
-/

namespace Warp.Noise

open List Endpoint Tunn Primitives

/-- No data with this counter was delivered. -/
def Undelivered (sent : List Sent) (delivered : List ℕ) (counter : UInt64) : Prop :=
  ∀ place ∈ delivered, ∀ packet, sent[place]? = some packet →
    messageByte packet.bytes = 4 → counterAt packet.bytes 8 ≠ counter

/-- The sessions of an end accept every counter of their windows that was not delivered. -/
def Windows (sent : List Sent) (receiver : Endpoint) : Prop :=
  ∀ session, receiver.tunnel.Holds session → ∀ counter,
    Undelivered sent receiver.delivered counter →
      session.recvCounter.toNat < counter.toNat + 128 → session.Acceptable counter

variable {sent : List Sent} {packet : Sent} {place : ℕ}

theorem Windows.of_sent {more : List Sent} {receiver : Endpoint} (windows : Windows sent receiver)
    (grown : sent <+: more) : Windows more receiver := by
  intro session held counter undelivered
  refine windows session held counter ?_
  intro place given packet found
  obtain ⟨rest, rfl⟩ := grown
  refine undelivered place given packet ?_
  rw [getElem?_append_left (List.getElem?_eq_some_iff.mp found).1]
  exact found

theorem Windows.deliver {receiver next : Endpoint} (windows : Windows sent receiver)
    (found : sent[place]? = some packet) (delivered : next.delivered = place :: receiver.delivered)
    (descends : ∀ session, next.tunnel.Holds session →
      receiver.tunnel.Descends packet.bytes session) : Windows sent next := by
  intro session held counter undelivered window
  rw [delivered] at undelivered
  have fresh := undelivered place mem_cons_self packet found
  have before : Undelivered sent receiver.delivered counter := by
    intro other given
    exact undelivered other (mem_cons_of_mem _ given)
  rcases descends session held with new | ⟨old, holds, same | ⟨data, checked⟩⟩
  · rw [new]
    exact Session.acceptable_new counter
  · rw [same] at window ⊢
    exact windows old holds counter before window
  · rw [checked] at window ⊢
    have highest := old.le_recvCounter_checkAndUpdateReplay (counterAt packet.bytes 8)
    rw [Session.acceptable_checkAndUpdateReplay_iff]
    exact ⟨windows old holds counter before (by omega), (fresh data).symm, by omega⟩

structure Configuration where
  staticPrivate : Key
  peerStaticPublic : Key
  presharedKey : Option Key
  keepalive : Option UInt16
  tunnelIndex : UInt32

def Configuration.endpoint (crypto : Primitives) (configuration : Configuration) : Endpoint where
  tunnel := .new crypto configuration.staticPrivate configuration.peerStaticPublic
    configuration.presharedKey configuration.keepalive configuration.tunnelIndex
  sent := []
  delivered := []

namespace Link

variable (crypto : Primitives)

def start (left right : Configuration) : Link :=
  ⟨left.endpoint crypto, right.endpoint crypto⟩

/-- Neither counter has reached its last value. -/
def HasRoom (link : Link) : Prop := ∀ side, (link.endpoint side).tunnel.HasRoom

instance (link : Link) : Decidable link.HasRoom :=
  decidable_of_iff (link.left.tunnel.HasRoom ∧ link.right.tunnel.HasRoom)
    ⟨fun room side => by cases side; exacts [room.1, room.2],
      fun room => ⟨room .left, room .right⟩⟩

/-- Both ends are sound, with windows for what the other one sent. -/
def Consistent (indices : Side → UInt32) (link : Link) : Prop :=
  ∀ side, (link.endpoint side).Sound crypto (indices side) (indices side.other) ∧
    Windows (link.endpoint side.other).sent (link.endpoint side)

variable {crypto} {indexOf : Side → UInt32} {link : Link} (left right : Configuration)

theorem Consistent.update (consistent : link.Consistent crypto indexOf) {side : Side}
    {endpoint : Endpoint}
    (sound : endpoint.Sound crypto (indexOf side) (indexOf side.other))
    (windows : Windows (link.endpoint side.other).sent endpoint)
    (grown : (link.endpoint side).sent <+: endpoint.sent) :
    (link.update endpoint side).Consistent crypto indexOf := by
  intro each
  rcases each.eq_or_eq_other side with rfl | rfl
  · rw [endpoint_update_self, endpoint_update_other]
    exact ⟨sound, windows⟩
  · have opposite := consistent side.other
    rw [Side.other_other] at opposite ⊢
    rw [endpoint_update_self, endpoint_update_other]
    exact ⟨opposite.1, opposite.2.of_sent grown⟩

theorem consistent_step (event : Event) (consistent : link.Consistent crypto indexOf)
    (room : link.HasRoom) : (link.step crypto event).Consistent crypto indexOf := by
  cases event with
  | serve side request =>
    obtain ⟨sound, windows⟩ := consistent side
    have progress := serve_progress crypto sound.settled (room side) request
    refine consistent.update (sound.advance progress (link.endpoint side).delivered ?_) ?_ ?_
    · intro bytes written made covered
      exact serve_cover crypto sound.settled written covered
    · intro session held
      rw [emit_tunnel, serve_holds_iff] at held
      rw [emit_delivered]
      exact windows session held
    · exact sent_prefix_emit ..
  | deliver side place source dst moment =>
    obtain ⟨sound, windows⟩ := consistent side
    rw [step]
    cases found : (link.endpoint side.other).sent[place]? with
    | none => exact consistent
    | some packet =>
      have made := (consistent side.other).1.made packet (mem_of_getElem? found)
      rw [Side.other_other] at made
      have receives := decapsulate_receives crypto sound.settled (room side)
        made.addressed source dst moment
      refine consistent.update (sound.advance receives.toProgress _ nofun) ?_ ?_
      · apply windows.deliver found (emit_delivered _ _ _)
        intro session held
        rw [emit_tunnel] at held
        exact receives.descends session held
      · exact sent_prefix_emit ..

def indices (left right : Configuration) : Side → UInt32
  | .left => left.tunnelIndex
  | .right => right.tunnelIndex

theorem consistent_start :
    (start crypto left right).Consistent crypto (indices left right) := by
  have idle (configuration : Configuration) (peer : UInt32) :
      (configuration.endpoint crypto).Sound crypto configuration.tunnelIndex peer := by
    refine ⟨⟨rfl, ?_, rfl, fun _ => rfl⟩, fun _ member => absurd member not_mem_nil, .nil⟩
    rintro session (held | held) <;> cases held
  have empty (configuration : Configuration) (sent : List Sent) :
      Windows sent (configuration.endpoint crypto) := by
    rintro session (held | held) <;> cases held
  intro side
  cases side with
  | left => exact ⟨idle left _, empty left _⟩
  | right => exact ⟨idle right _, empty right _⟩

theorem consistent_after (events : List Event)
    (room : Run.Guarded (step crypto) (fun link _ => link.HasRoom) (start crypto left right) events) :
    (Run.after (step crypto) (start crypto left right) events).Consistent crypto
      (indices left right) :=
  Run.invariant (Consistent crypto _) (fun _ event consistent => consistent_step event consistent)
    (consistent_start left right) room

end Link

/-- The plaintext is an IPv4 or IPv6 packet by its first byte. -/
def IsIp (plaintext : Bytes) : Prop :=
  plaintext ≠ [] ∧ (plaintext.getD 0 0 >>> 4 = 4 ∨ plaintext.getD 0 0 >>> 4 = 6)
  deriving Decidable

def TunnResult.plaintext (plaintext : Bytes) (source : Option IpAddr) : TunnResult :=
  let address := source.getD .unspecified
  if plaintext.getD 0 0 >>> 4 = 4 then .writeToTunnelV4 plaintext address
  else .writeToTunnelV6 plaintext address

namespace Tunn

variable {tunnel : Tunn} {plaintext : Bytes}

theorem forward_of_isIp (ip : IsIp plaintext) (source : Option IpAddr) :
    forward plaintext.length plaintext source = .plaintext plaintext source := by
  obtain ⟨nonempty, version⟩ := ip
  rw [forward, TunnResult.plaintext, if_neg (by rwa [length_eq_zero_iff]), take_length]
  rcases version with four | six
  · simp only [four, if_true]
  · simp only [six, if_true]

theorem plaintext_ne_err (plaintext : Bytes) (source : Option IpAddr) (failure : WireGuardError) :
    TunnResult.plaintext plaintext source ≠ .err failure := by
  unfold TunnResult.plaintext
  dsimp only
  split <;> nofun

theorem decapsulate_dataPacket (crypto : Primitives) (source : Option IpAddr)
    (receiver : UInt32) (counter : UInt64) (ciphertext dst : Bytes) (moment : Moment) :
    tunnel.decapsulate crypto source (dataPacket receiver counter ciphertext) dst moment =
      tunnel.handleTransportData crypto source (dataPacket receiver counter ciphertext) dst
        moment.now := by
  have long := length_dataPacket receiver counter ciphertext
  rw [decapsulate, if_neg (by omega)]
  rfl

/-- A ciphertext of a key is handed on by a session exactly if the session has that key and
accepts the counter. -/
theorem decryptTransport_fst_iff {crypto : Primitives} {keys : Set Key}
    (aead : crypto.Authenticates keys) {session : TransportSession} (ours : session.recvKey ∈ keys)
    {key : Key} (theirs : key ∈ keys) {counter : UInt64} {ciphertext : Bytes} (ip : IsIp plaintext)
    (encrypted : crypto.encrypt key (nonce counter) plaintext [] = some ciphertext)
    {dst : Bytes} (room : plaintext.length ≤ dst.length) (source : Option IpAddr) (now : ℕ) :
    (tunnel.decryptTransport crypto session counter ciphertext dst source now).1 =
        .plaintext plaintext source ↔
      session.recvKey = key ∧ session.Acceptable counter := by
  have length := aead.length key theirs _ _ _ _ encrypted
  have exact : ciphertext.length - 16 = plaintext.length := by
    rw [length]
    exact Nat.add_sub_cancel _ _
  rw [decryptTransport, exact, if_neg (Nat.not_lt.mpr room)]
  have result := session.decrypt_fst crypto counter ciphertext (dst.take plaintext.length)
  rcases decrypted : session.decrypt crypto counter ciphertext (dst.take plaintext.length) with
    ⟨outcome, after⟩
  rw [decrypted] at result
  dsimp only at result ⊢
  by_cases acceptable : session.Acceptable counter
  · rw [if_pos acceptable] at result
    by_cases same : session.recvKey = key
    · have opened : outcome = .ok (plaintext.length, plaintext) := by
        rw [result, aeadDecrypt_eq_ok_iff]
        refine ⟨by omega, plaintext, ?_, ?_, ?_⟩
        · rw [same]
          exact aead.decrypts key theirs _ _ _ _ encrypted
        · rw [length_take]
          omega
        · rw [drop_eq_nil_of_le (by rw [length_take]; omega), append_nil]
      rw [opened]
      exact iff_of_true (forward_of_isIp ip source) ⟨same, acceptable⟩
    · refine iff_of_false ?_ fun accepted => same accepted.1
      have rejected := aead.rejects key theirs session.recvKey ours same _ _ _ _ encrypted
      cases outcome with
      | error failure => exact (plaintext_ne_err plaintext source failure).symm
      | ok opened =>
        obtain ⟨-, other, some, -⟩ := (aeadDecrypt_eq_ok_iff crypto).mp result.symm
        rw [rejected] at some
        cases some
  · rw [if_neg acceptable] at result
    subst result
    exact iff_of_false (plaintext_ne_err plaintext source _).symm fun accepted =>
      acceptable accepted.2

end Tunn

namespace Link

variable {crypto : Primitives}

theorem undelivered_of_first (apart : sent.Pairwise Sent.Apart) {delivered : List ℕ}
    (found : sent[place]? = some packet) (data : messageByte packet.bytes = 4)
    (first : place ∉ delivered) :
    Undelivered sent delivered (counterAt packet.bytes 8) := by
  intro earlier given other there otherData
  obtain ⟨inside, rfl⟩ := List.getElem?_eq_some_iff.mp found
  obtain ⟨within, rfl⟩ := List.getElem?_eq_some_iff.mp there
  have distinct := pairwise_iff_getElem.mp apart
  rcases Nat.lt_trichotomy earlier place with before | same | behind
  · exact distinct earlier place within inside before otherData data
  · exact absurd (same ▸ given) first
  · exact (distinct place earlier inside within behind data otherData).symm

/-- In every run, a packet made under the current or the previous session of its receiver that
comes for the first time and with room for its plaintext is decapsulated exactly if it was made
under the current session, in the window of that. -/
theorem decapsulated_iff (left right : Configuration) (events : List Event)
    (room : Run.Guarded (step crypto) (fun link _ => link.HasRoom) (start crypto left right)
      events) (side : Side) {link : Link}
    (reached : Run.after (step crypto) (start crypto left right) events = link)
    {place : ℕ} {packet : Sent} {cover : Cover} {session : TransportSession}
    (sent : (link.endpoint side.other).sent[place]? = some packet)
    (covered : packet.cover = some cover) (ip : IsIp cover.plaintext)
    (held : (link.endpoint side).tunnel.Holds session) (under : session.recvKey = cover.key)
    (first : place ∉ (link.endpoint side).delivered)
    {keys : Set Key} (aead : crypto.Authenticates keys)
    (known : ∀ session, (link.endpoint side).tunnel.Holds session → session.recvKey ∈ keys)
    {dst : Bytes} (fits : cover.plaintext.length ≤ dst.length) (source : Option IpAddr)
    (moment : Moment) :
    ((link.endpoint side).tunnel.decapsulate crypto source packet.bytes dst moment).1 =
        .plaintext cover.plaintext source ↔
      ∃ current, (link.endpoint side).tunnel.currentSession = some current ∧
        current.recvKey = cover.key ∧
        current.recvCounter.toNat < cover.counter.toNat + 128 := by
  have consistent := consistent_after left right events room
  rw [reached] at consistent
  obtain ⟨sound, windows⟩ := consistent side
  have opposite := (consistent side.other).1
  obtain ⟨ciphertext, encrypted, bytes⟩ :=
    (opposite.made packet (mem_of_getElem? sent)).cover cover covered
  rw [Side.other_other] at bytes
  have theirs : cover.key ∈ keys := under ▸ known session held
  have undelivered := undelivered_of_first opposite.apart sent (by rw [bytes]; rfl) first
  have long := aead.length _ theirs _ _ _ _ encrypted
  rw [bytes, counterAt_dataPacket] at undelivered
  cases active : (link.endpoint side).tunnel.currentSession with
  | none =>
    rcases held with current | previous
    · rw [active] at current
      cases current
    · rw [sound.settled.idle active] at previous
      cases previous
  | some current =>
    have receiver := (sound.settled.sessions current (.inl active)).1.trans
      (indexAt_dataPacket _ cover.counter ciphertext).symm
    have size := length_dataPacket (indices left right side) cover.counter ciphertext
    rw [long, tagLen] at size
    rw [bytes, decapsulate_dataPacket, handleTransportData_of_current crypto active
      receiver (by omega), counterAt_dataPacket, drop_dataPacket]
    rw [decryptTransport_fst_iff aead (known current (.inl active)) theirs ip encrypted fits]
    constructor
    · rintro ⟨same, acceptable⟩
      exact ⟨current, rfl, same, acceptable.1⟩
    · rintro ⟨_, ⟨⟩, same, inWindow⟩
      exact ⟨same, windows current (.inl active) cover.counter undelivered inWindow⟩

def sampleLeft : Configuration := ⟨Primitives.byteKey 3, Primitives.byteKey 5, none, none, 1⟩

def sampleRight : Configuration := ⟨Primitives.byteKey 5, Primitives.byteKey 3, none, none, 2⟩

/-- A handshake, and one byte of IPv4 that the left end sends. -/
def sampleEvents : List Event :=
  [.serve .left (.formatHandshakeInitiation (.replicate 148 0) (Handshake.sampleMoment 0 7)),
    .deliver .right 0 none (.replicate 92 0) (Handshake.sampleMoment 0 11),
    .deliver .left 0 none (.replicate 92 0) (Handshake.sampleMoment 0 0),
    .serve .left (.encapsulate [0x45] (.replicate 33 0) (Handshake.sampleMoment 0 0))]

/-- Another handshake that the right end has answered. -/
def sampleRekey : List Event :=
  [.serve .left (.formatHandshakeInitiation (.replicate 148 0) (Handshake.sampleMoment 1 13)),
    .deliver .right 3 none (.replicate 92 0) (Handshake.sampleMoment 1 17)]

/-- The packet is in flight when the right end answers the second handshake. Its session is then
the previous one of the right end, and the packet is refused. -/
theorem packet_of_previous_session_refused :
    let link := Run.after (step .checksums) (start .checksums sampleLeft sampleRight)
      (sampleEvents ++ sampleRekey)
    link.left.sent[2]?.any (fun packet => packet.cover.any fun cover =>
      link.right.tunnel.previousSession.any fun session =>
        IsIp cover.plaintext ∧ session.recvKey = cover.key ∧ 2 ∉ link.right.delivered ∧
        session.recvCounter.toNat < cover.counter.toNat + 128 ∧
        (link.right.tunnel.decapsulate .checksums none packet.bytes [0]
          (Handshake.sampleMoment 1 0)).1 = .err .decryptionFailed) = true := by
  decide +kernel

/-- The left end completes the second handshake and sends one byte of IPv4 under it. -/
def sampleResumed : List Event :=
  sampleEvents ++ sampleRekey ++
    [.deliver .left 1 none (.replicate 92 0) (Handshake.sampleMoment 1 0),
      .serve .left (.encapsulate [0x45] (.replicate 33 0) (Handshake.sampleMoment 1 0))]

def sampleLink : Link :=
  Run.after (step .checksums) (start .checksums sampleLeft sampleRight) sampleResumed

def samplePacket : Sent := sampleLink.left.sent.getD 5 ⟨[], none⟩

def sampleCover : Cover := samplePacket.cover.getD ⟨Primitives.byteKey 0, 0, []⟩

def sampleUnset : TransportSession := .new (Primitives.byteKey 0) (Primitives.byteKey 0) 0 0 0

def sampleCurrent : TransportSession := sampleLink.right.tunnel.currentSession.getD sampleUnset

def samplePrevious : TransportSession := sampleLink.right.tunnel.previousSession.getD sampleUnset

theorem checksum_append_inj {first second : Bytes} (rest : Bytes)
    (same : checksum (first ++ rest) = checksum (second ++ rest)) :
    checksum first = checksum second := by
  induction rest generalizing first second with
  | nil => simpa using same
  | cons byte rest ih =>
    have extended : checksum (first ++ [byte]) = checksum (second ++ [byte]) :=
      ih (by simpa using same)
    -- 31 is invertible modulo 256, so the step for one byte is.
    simp only [checksum, List.foldl_concat, ← UInt8.toNat_inj, UInt8.toNat_ofNat'] at extended ⊢
    omega

/-- The checksums tell two keys apart that have different checksums themselves. -/
theorem checksums_authenticates {first second : Key}
    (apart : checksum first.toList ≠ checksum second.toList) :
    checksums.Authenticates {first, second} where
  length := by
    rintro _ _ nonce message aad _ ⟨⟩
    simp [tagLen]
  decrypts := by
    rintro _ _ nonce message aad _ ⟨⟩
    simp [checksums]
  rejects := by
    rintro key mine other theirs different nonce message aad _ ⟨⟩
    have keys : checksum key.toList ≠ checksum other.toList := by
      rcases mine with rfl | rfl <;> rcases theirs with rfl | rfl
      · exact absurd rfl different
      · exact apart
      · exact apart.symm
      · exact absurd rfl different
    have tags : checksum (key.toList ++ (nonce ++ (message ++ aad))) ≠
        checksum (other.toList ++ (nonce ++ (message ++ aad))) :=
      fun same => keys (checksum_append_inj _ same)
    simp [checksums, tags]

/-- The right end still holds the session before, whose key refuses the packet. -/
theorem decapsulated_after_rekey :
    (sampleLink.endpoint .right).tunnel.previousSession.any (·.recvKey ≠ sampleCover.key) ∧
      ((sampleLink.endpoint .right).tunnel.decapsulate .checksums none samplePacket.bytes [0]
        (Handshake.sampleMoment 1 0)).1 = .plaintext sampleCover.plaintext none := by
  have facts : (sampleLink.endpoint (.other .right)).sent[5]? = some samplePacket ∧
      samplePacket.cover = some sampleCover ∧ IsIp sampleCover.plaintext ∧
      (sampleLink.endpoint .right).tunnel.currentSession = some sampleCurrent ∧
      (sampleLink.endpoint .right).tunnel.previousSession = some samplePrevious ∧
      sampleCurrent.recvKey = sampleCover.key ∧
      checksum samplePrevious.recvKey.toList ≠ checksum sampleCover.key.toList ∧
      5 ∉ (sampleLink.endpoint .right).delivered ∧
      sampleCurrent.recvCounter.toNat < sampleCover.counter.toNat + 128 ∧
      sampleCover.plaintext.length ≤ [(0 : UInt8)].length := by
    decide +kernel
  have room : Run.Guarded (step .checksums) (fun link _ => link.HasRoom)
      (start .checksums sampleLeft sampleRight) sampleResumed := by
    decide +kernel
  have reached : Run.after (step .checksums) (start .checksums sampleLeft sampleRight)
      sampleResumed = sampleLink := rfl
  generalize sampleLink = link at facts reached ⊢
  generalize sampleCurrent = current, samplePrevious = previous at facts
  obtain ⟨sent, covered, ip, active, before, under, apart, first, window, fits⟩ := facts
  have known session (holds : (link.endpoint .right).tunnel.Holds session) :
      session.recvKey ∈ ({current.recvKey, previous.recvKey} : Set Key) := by
    rcases holds with held | held
    · rw [Option.some.inj (held.symm.trans active)]
      exact .inl rfl
    · rw [Option.some.inj (held.symm.trans before)]
      exact .inr rfl
  have aead : checksums.Authenticates {current.recvKey, previous.recvKey} := by
    rw [under]
    exact checksums_authenticates apart.symm
  refine ⟨?_, (decapsulated_iff sampleLeft sampleRight sampleResumed room .right reached
    sent covered ip (.inl active) under first aead known fits none
    (Handshake.sampleMoment 1 0)).mpr ⟨current, active, under, window⟩⟩
  simp only [before, Option.any_some, decide_eq_true_eq]
  exact fun same => apart (congrArg (checksum ·.toList) same)

end Link

end Warp.Noise
