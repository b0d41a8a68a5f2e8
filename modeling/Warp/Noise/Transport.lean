import Warp.Foundation.Outcome
import Warp.Noise.Crypto
import Warp.Noise.Session

/-! # Transport sessions

A packet that fails authentication leaves its counter in the replay window. Forged packets change
which genuine ones are accepted exactly if one of them comes before a genuine packet that would be
accepted, with the same counter or one at least a window above
(`TransportSession.forged_harmless_iff`).
-/

namespace Warp.Noise

open List

def sessionLifetime : ℕ := 180 * 10 ^ 9

def maxMessages : UInt64 := 0xFFFFFFFFFFFEFFFF

structure TransportSession extends Session where
  sendKey : Key
  recvKey : Key
  ourIndex : UInt32
  peerIndex : UInt32
  createdAt : ℕ
  sendCounter : UInt64
deriving DecidableEq

namespace TransportSession

def new (sendKey recvKey : Key) (ourIndex peerIndex : UInt32) (now : ℕ) : TransportSession :=
  { Session.new with sendKey, recvKey, ourIndex, peerIndex, createdAt := now, sendCounter := 0 }

def isExpired (session : TransportSession) (now : ℕ) : Bool :=
  now - session.createdAt > sessionLifetime || session.sendCounter ≥ maxMessages

variable (crypto : Primitives) (session : TransportSession)

def encrypt (session : TransportSession) (counter : UInt64) (plaintext ciphertext : Bytes) :
    Except WireGuardError (ℕ × Bytes) :=
  crypto.aeadEncrypt session.sendKey counter plaintext [] ciphertext

def decrypt (session : TransportSession) (counter : UInt64) (ciphertext plaintext : Bytes) :
    Except WireGuardError (ℕ × Bytes) × TransportSession :=
  let (acceptable, replay) := session.checkAndUpdateReplay counter
  let session := { session with toSession := replay }
  if !acceptable then (.error .replayAttack, session)
  else (crypto.aeadDecrypt session.recvKey counter ciphertext [] plaintext, session)

theorem decrypt_fst (counter : UInt64) (ciphertext plaintext : Bytes) :
    (session.decrypt crypto counter ciphertext plaintext).1 =
      if session.Acceptable counter then
        crypto.aeadDecrypt session.recvKey counter ciphertext [] plaintext
      else .error .replayAttack := by
  simp only [← Session.checkAndUpdateReplay_fst_iff, decrypt]
  cases (session.checkAndUpdateReplay counter).1 <;> rfl

@[simp] theorem decrypt_snd (counter : UInt64) (ciphertext plaintext : Bytes) :
    (session.decrypt crypto counter ciphertext plaintext).2 =
      { session with toSession := (session.checkAndUpdateReplay counter).2 } := by
  unfold decrypt
  dsimp only
  split <;> rfl

end TransportSession

structure TransportPacket where
  counter : UInt64
  ciphertext : Bytes
  buffer : Bytes
deriving DecidableEq

namespace TransportSession

variable (crypto : Primitives)

section
variable (session : TransportSession) (packet : TransportPacket)

/-- The packet is encrypted with the key of the session. -/
def genuine : Bool :=
  tagLen ≤ packet.ciphertext.length &&
    (crypto.decrypt session.recvKey (Primitives.nonce packet.counter) packet.ciphertext []).isSome

/-- The buffer has room for what is decrypted. -/
def fits : Bool :=
  (crypto.decrypt session.recvKey (Primitives.nonce packet.counter) packet.ciphertext []).all
    (·.length ≤ packet.buffer.length)

/-- The session decrypts the packet. -/
def accepts : Bool :=
  (session.decrypt crypto packet.counter packet.ciphertext packet.buffer).1.isOk

/-- The session after the packet. -/
def next : TransportSession :=
  (session.decrypt crypto packet.counter packet.ciphertext packet.buffer).2

end

/-- Each packet of a sequence, with whether the session accepts it. -/
def deliver (session : TransportSession) :
    List TransportPacket → List (TransportPacket × Bool)
  | [] => []
  | packet :: packets =>
    (packet, session.accepts crypto packet) :: (session.next crypto packet).deliver packets

section
variable (session : TransportSession) (packet : TransportPacket)
include session packet

theorem accepts_iff :
    session.accepts crypto packet = true ↔ session.Acceptable packet.counter ∧
      session.genuine crypto packet = true ∧ session.fits crypto packet = true := by
  rw [accepts, decrypt_fst]
  unfold genuine fits
  by_cases acceptable : session.Acceptable packet.counter
  · rw [if_pos acceptable, and_iff_right acceptable, Outcome.except_isOk_iff]
    simp only [Primitives.aeadDecrypt_eq_ok_iff]
    cases crypto.decrypt session.recvKey (Primitives.nonce packet.counter) packet.ciphertext [] with
    | none => simp
    | some plaintext => simp
  · rw [if_neg acceptable]
    exact iff_of_false Bool.false_ne_true fun accepted => acceptable accepted.1

theorem next_eq :
    session.next crypto packet =
      { session with toSession := (session.checkAndUpdateReplay packet.counter).2 } :=
  decrypt_snd crypto ..

theorem acceptable_next_iff (counter : UInt64) : (session.next crypto packet).Acceptable counter ↔
      session.Acceptable counter ∧ Session.Spares packet.counter counter := by
  rw [next_eq]
  exact session.acceptable_checkAndUpdateReplay_iff packet.counter counter

@[simp] theorem genuine_next :
    (session.next crypto packet).genuine crypto = session.genuine crypto := by
  rw [next_eq]
  rfl

@[simp] theorem fits_next : (session.next crypto packet).fits crypto = session.fits crypto := by
  rw [next_eq]
  rfl

end

section Forgery
variable {crypto}

/-- A packet of a sequence is the first one or one of the others. -/
theorem forall_split_cons {first : TransportPacket} {rest : List TransportPacket}
    {holds : List TransportPacket → TransportPacket → Prop} :
    (∀ before packet after, first :: rest = before ++ packet :: after → holds before packet) ↔
      holds [] first ∧
        ∀ before packet after, rest = before ++ packet :: after →
          holds (first :: before) packet := by
  constructor
  · intro all
    refine ⟨all [] first rest rfl, ?_⟩
    rintro before packet after rfl
    exact all (first :: before) packet after rfl
  · rintro ⟨head, tail⟩ before packet after split
    cases before with
    | nil =>
      obtain ⟨rfl, -⟩ := List.cons.inj split
      exact head
    | cons _ before =>
      obtain ⟨rfl, others⟩ := List.cons.inj split
      exact tail before packet after others

/-- A session that gets all packets treats the genuine ones as a session that gets these alone,
if it accepts all that the other does. -/
theorem filter_deliver_eq_iff {full alone : TransportSession}
    (sameKey : full.recvKey = alone.recvKey)
    (stricter : ∀ counter, full.Acceptable counter → alone.Acceptable counter)
    (packets : List TransportPacket) :
    (full.deliver crypto packets).filter (alone.genuine crypto ·.1) =
        alone.deliver crypto (packets.filter (alone.genuine crypto)) ↔
      ∀ before packet after, packets = before ++ packet :: after →
        alone.genuine crypto packet → alone.fits crypto packet →
        alone.Acceptable packet.counter →
        (∀ earlier ∈ before, alone.genuine crypto earlier →
          Session.Spares earlier.counter packet.counter) →
        full.Acceptable packet.counter ∧
          ∀ earlier ∈ before, Session.Spares earlier.counter packet.counter := by
  induction packets generalizing full alone with
  | nil => simp [deliver]
  | cons first rest ih =>
    rw [forall_split_cons]
    cases real : alone.genuine crypto first with
    | false =>
      have narrower counter (acceptable : (full.next crypto first).Acceptable counter) :=
        stricter counter ((full.acceptable_next_iff crypto first counter).mp acceptable).1
      have key : (full.next crypto first).recvKey = alone.recvKey := by
        rw [next_eq]
        exact sameKey
      rw [deliver, filter_cons_of_neg (by simp [real]),
        filter_cons_of_neg (by simp [real]), ih key narrower]
      simp only [real, Bool.false_eq_true, false_imp_iff, true_and, forall_mem_cons,
        acceptable_next_iff, and_assoc]
    | true =>
      have narrower counter
          (acceptable : (full.next crypto first).Acceptable counter) :
          (alone.next crypto first).Acceptable counter := by
        rw [acceptable_next_iff] at acceptable ⊢
        exact ⟨stricter counter acceptable.1, acceptable.2⟩
      have key : (full.next crypto first).recvKey = (alone.next crypto first).recvKey := by
        rw [next_eq, next_eq]
        exact sameKey
      have rest := ih key narrower
      simp only [genuine_next, fits_next] at rest
      rw [deliver, filter_cons_of_pos (by simpa using real),
        filter_cons_of_pos (by simpa using real), deliver, List.cons.injEq, rest]
      apply and_congr
      · have authentic : full.genuine crypto first = true := by
          rw [genuine, sameKey]
          exact real
        have roomy : full.fits crypto first = alone.fits crypto first := by
          rw [fits, fits, sameKey]
        have weaker := stricter first.counter
        rw [Prod.mk.injEq, and_iff_right rfl, Bool.eq_iff_iff, accepts_iff, accepts_iff,
          authentic, real, roomy]
        simp only [true_and, not_mem_nil, false_imp_iff, implies_true, and_true, true_imp_iff]
        constructor
        · intro same fits acceptable
          exact (same.mpr ⟨acceptable, fits⟩).1
        · intro kept
          exact ⟨fun full => ⟨weaker full.1, full.2⟩, fun alone => ⟨kept alone.2 alone.1, alone.2⟩⟩
      · simp only [real, true_imp_iff, forall_mem_cons, acceptable_next_iff, and_assoc, and_imp]

end Forgery

/-- **When forged packets do no harm.** Which genuine packets are accepted does not depend on forged
ones exactly if every forged packet spares the genuine ones after it that are accepted without it. -/
theorem forged_harmless_iff (session : TransportSession) (packets : List TransportPacket) :
    (session.deliver crypto packets).filter (session.genuine crypto ·.1) =
        session.deliver crypto (packets.filter (session.genuine crypto)) ↔
      ∀ before packet after, packets = before ++ packet :: after →
        session.genuine crypto packet → session.fits crypto packet →
        session.Acceptable packet.counter →
        (∀ earlier ∈ before, session.genuine crypto earlier →
          Session.Spares earlier.counter packet.counter) →
        ∀ forged ∈ before, ¬ session.genuine crypto forged →
          Session.Spares forged.counter packet.counter := by
  rw [filter_deliver_eq_iff rfl (fun _ acceptable => acceptable)]
  constructor
  · intro spared before packet after split genuine fits acceptable apart forged member _
    exact (spared before packet after split genuine fits acceptable apart).2 forged member
  · intro spared before packet after split genuine fits acceptable apart
    refine ⟨acceptable, ?_⟩
    intro earlier member
    by_cases real : session.genuine crypto earlier = true
    · exact apart earlier member real
    · exact spared before packet after split genuine fits acceptable apart earlier member real

/-- A forged packet with the counter of the genuine one behind it. -/
theorem forged_counter_blocks :
    let session := TransportSession.new (.replicate 32 1) (.replicate 32 2) 1 2 0
    let sealed := .replicate 16 (Primitives.checksum (.replicate 32 2 ++ .replicate 12 0))
    let forged : TransportPacket := ⟨0, .replicate 16 0, []⟩
    let genuine : TransportPacket := ⟨0, sealed, []⟩
    (session.deliver .checksums [forged, genuine]).filter (session.genuine .checksums ·.1) =
        [(genuine, false)] ∧
      session.deliver .checksums ([forged, genuine].filter (session.genuine .checksums)) =
        [(genuine, true)] := by
  decide +kernel

end TransportSession

end Warp.Noise
