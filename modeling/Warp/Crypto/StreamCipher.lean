import Mathlib.Data.UInt
import Warp.Foundation.Bytes
import Warp.Foundation.Run

/-! # Streaming encryption

A stream cipher derives the nonce of every chunk from a counter, which every successful encryption
advances. Different counters give different nonces (`StreamCipher.nonceAt_injective`). In a release
build the counter wraps at its maximum, so nonces are fresh as long as no encryption starts there
(`nonces_fresh`).
-/

namespace Warp.Crypto

inductive Error where
  | encryption (text : String)
  | invalidKey (text : String)

abbrev Nonce := Vector UInt8 12

/-- ChaCha20-Poly1305 encryption with a key, a nonce and a plaintext. -/
abbrev Aead := Vector UInt8 32 → Nonce → Bytes → Except String Bytes

/-- Streaming cipher for encrypting data in chunks. -/
structure StreamCipher where
  key : Vector UInt8 32
  baseNonce : Nonce
  counter : UInt64

namespace StreamCipher

def new (key : Vector UInt8 32) (baseNonce : Nonce) : StreamCipher := ⟨key, baseNonce, 0⟩

/-- The nonce for a counter: its little-endian bytes are XORed with the last 8 bytes of the
base nonce. -/
def nonceAt (baseNonce : Nonce) (counter : UInt64) : Nonce :=
  let counterBytes := Bytes.leBytes 8 counter.toNat
  Vector.ofFn fun place =>
    if place.val < 4 then baseNonce[place] else baseNonce[place] ^^^ counterBytes.getD (place - 4) 0

def deriveNonce (cipher : StreamCipher) : Nonce := nonceAt cipher.baseNonce cipher.counter

variable (aead : Aead)

/-- Encrypt a chunk and advance the counter. The assertion that the counter is below its
maximum is checked in debug builds only. -/
def encryptChunk (cipher : StreamCipher) (plaintext : Bytes) : Except Error Bytes × StreamCipher :=
  match aead cipher.key cipher.deriveNonce plaintext with
  | .error text => (.error (.encryption s!"Chunk encryption failed: {text}"), cipher)
  | .ok ciphertext => (.ok ciphertext, { cipher with counter := cipher.counter + 1 })

def encryptChunks (cipher : StreamCipher) : List Bytes → Except Error (List Bytes) × StreamCipher
  | [] => (.ok [], cipher)
  | chunk :: chunks =>
    match cipher.encryptChunk aead chunk with
    | (.error failure, cipher) => (.error failure, cipher)
    | (.ok ciphertext, cipher) =>
      let (others, cipher) := encryptChunks cipher chunks
      (others.map (ciphertext :: ·), cipher)

def skipToCounter (cipher : StreamCipher) (counter : UInt64) : Except Error Unit × StreamCipher :=
  if counter < cipher.counter then
    (.error (.invalidKey (s!"Cannot reset counter backward: {cipher.counter.toNat} -> " ++
      s!"{counter.toNat} would cause nonce reuse")), cipher)
  else (.ok (), { cipher with counter })

/-- The nonces of the encryptions that succeed when chunks are encrypted in sequence. -/
def nonces (cipher : StreamCipher) : List Bytes → List Nonce
  | [] => []
  | chunk :: chunks =>
    match cipher.encryptChunk aead chunk with
    | (.error _, _) => []
    | (.ok _, next) => cipher.deriveNonce :: next.nonces chunks

theorem nonceAt_injective (baseNonce : Nonce) : Function.Injective (nonceAt baseNonce) := by
  intro first second same
  have bytes : Bytes.leBytes 8 first.toNat = Bytes.leBytes 8 second.toNat := by
    apply List.ext_getElem (by simp)
    intro place inside inside'
    rw [Bytes.length_leBytes] at inside
    have here := congrArg (fun nonce : Nonce => nonce[place + 4]) same
    simpa [nonceAt, inside] using here
  have fits (counter : UInt64) : counter.toNat < 256 ^ 8 := counter.toNat_lt
  have := congrArg Bytes.leValue bytes
  rw [Bytes.leValue_leBytes _ _ (fits first), Bytes.leValue_leBytes _ _ (fits second)] at this
  exact UInt64.toNat_inj.mp this

/-- Every encryption of a sequence starts with the counter below its maximum. -/
def hasRoom (cipher : StreamCipher) : List Bytes → Bool
  | [] => true
  | chunk :: chunks =>
    cipher.counter.toNat < 2 ^ 64 - 1 &&
      match cipher.encryptChunk aead chunk with
      | (.error _, _) => true
      | (.ok _, next) => next.hasRoom chunks

end StreamCipher

open StreamCipher

inductive Call where
  | encryptChunk (plaintext : Bytes)
  | encryptChunks (chunks : List Bytes)
  | skipToCounter (counter : UInt64)

/-- A stream cipher and the nonces of all encryptions that succeeded. -/
structure History where
  cipher : StreamCipher
  used : List Nonce

namespace History

variable (aead : Aead) {history : History} {cipher : StreamCipher} {used : List Nonce}

def start (key : Vector UInt8 32) (baseNonce : Nonce) : History := ⟨.new key baseNonce, []⟩

def step (history : History) : Call → History
  | .encryptChunk plaintext =>
    ⟨(history.cipher.encryptChunk aead plaintext).2,
      history.used ++ history.cipher.nonces aead [plaintext]⟩
  | .encryptChunks chunks =>
    ⟨(history.cipher.encryptChunks aead chunks).2,
      history.used ++ history.cipher.nonces aead chunks⟩
  | .skipToCounter counter => ⟨(history.cipher.skipToCounter counter).2, history.used⟩

def belowMaximum (history : History) : Call → Bool
  | .encryptChunk plaintext => history.cipher.hasRoom aead [plaintext]
  | .encryptChunks chunks => history.cipher.hasRoom aead chunks
  | .skipToCounter _ => true

/-- All nonces come from different counters below the current one. -/
def Fresh (history : History) : Prop :=
  ∃ counters : List UInt64,
    history.used = counters.map (StreamCipher.nonceAt history.cipher.baseNonce) ∧
    counters.Nodup ∧ ∀ counter ∈ counters, counter < history.cipher.counter

theorem Fresh.nodup (fresh : history.Fresh) : history.used.Nodup := by
  obtain ⟨counters, used, distinct, -⟩ := fresh
  rw [used]
  exact distinct.map (nonceAt_injective _)

theorem lt_add_one {counter : UInt64} (room : counter.toNat < 2 ^ 64 - 1) :
    counter < counter + 1 := by
  rw [UInt64.lt_iff_toNat_lt, UInt64.toNat_add]
  change _ < (counter.toNat + 1) % 2 ^ 64
  omega

theorem Fresh.advance (fresh : Fresh ⟨cipher, used⟩) (room : cipher.counter.toNat < 2 ^ 64 - 1) :
    Fresh ⟨{ cipher with counter := cipher.counter + 1 }, used ++ [cipher.deriveNonce]⟩ := by
  obtain ⟨counters, earlier, distinct, below⟩ := fresh
  refine ⟨counters ++ [cipher.counter], ?_, ?_, ?_⟩
  · rw [List.map_append, ← earlier]
    rfl
  · rw [List.nodup_append]
    refine ⟨distinct, List.nodup_singleton _, fun counter member other isLast => ?_⟩
    rw [List.mem_singleton.mp isLast]
    exact (UInt64.ne_of_lt (below counter member))
  · refine List.forall_mem_append.mpr
      ⟨fun counter earlier => ?_, List.forall_mem_singleton.mpr (lt_add_one room)⟩
    exact UInt64.lt_trans (below counter earlier) (lt_add_one room)

theorem encryptChunk_cases (cipher : StreamCipher) (plaintext : Bytes) :
    (∃ failure, cipher.encryptChunk aead plaintext = (.error failure, cipher)) ∨
      ∃ ciphertext, cipher.encryptChunk aead plaintext =
        (.ok ciphertext, { cipher with counter := cipher.counter + 1 }) := by
  rw [encryptChunk]
  split
  · exact .inl ⟨_, rfl⟩
  · exact .inr ⟨_, rfl⟩

variable {aead}

/-- Chunk after chunk, each encryption takes the nonce of the counter and moves it on. -/
theorem Fresh.encryptChunks {chunks : List Bytes} (fresh : Fresh ⟨cipher, used⟩)
    (room : cipher.hasRoom aead chunks = true) :
    Fresh ⟨(cipher.encryptChunks aead chunks).2, used ++ cipher.nonces aead chunks⟩ := by
  induction chunks generalizing cipher used with
  | nil =>
    rw [nonces, List.append_nil]
    exact fresh
  | cons chunk chunks ih =>
    rcases encryptChunk_cases aead cipher chunk with
      ⟨failure, encrypted⟩ | ⟨ciphertext, encrypted⟩
    · simp only [encryptChunks, nonces, encrypted, List.append_nil]
      exact fresh
    · simp only [hasRoom, encrypted, Bool.and_eq_true, decide_eq_true_eq] at room
      have later := ih (fresh.advance room.1) room.2
      rw [List.append_assoc] at later
      simp only [encryptChunks, nonces, encrypted]
      exact later

theorem encryptChunks_singleton (cipher : StreamCipher) (plaintext : Bytes) :
    (cipher.encryptChunks aead [plaintext]).2 = (cipher.encryptChunk aead plaintext).2 := by
  rcases encryptChunk_cases aead cipher plaintext with ⟨_, encrypted⟩ | ⟨_, encrypted⟩ <;>
    simp only [encryptChunks, encrypted]

theorem Fresh.step (fresh : history.Fresh) {call : Call}
    (below : history.belowMaximum aead call = true) : (history.step aead call).Fresh := by
  cases call with
  | encryptChunk plaintext =>
    have after := fresh.encryptChunks below
    rw [encryptChunks_singleton] at after
    exact after
  | encryptChunks chunks => exact fresh.encryptChunks below
  | skipToCounter counter =>
    change Fresh ⟨(history.cipher.skipToCounter counter).2, _⟩
    rw [skipToCounter]
    split
    · exact fresh
    · rename_i forward
      obtain ⟨counters, used, distinct, before⟩ := fresh
      exact ⟨counters, used, distinct, fun other member =>
        UInt64.lt_of_lt_of_le (before other member) (UInt64.not_lt.mp forward)⟩

end History

/-- In every run in which no encryption starts at the maximum of the counter, all successful
encryptions have different nonces. -/
theorem nonces_fresh (aead : Aead) (key : Vector UInt8 32) (baseNonce : Nonce) (calls : List Call)
    (below : Run.Guarded (History.step aead)
      (fun history call => history.belowMaximum aead call = true) (.start key baseNonce) calls) :
    (Run.after (History.step aead) (.start key baseNonce) calls).used.Nodup := by
  have fresh : History.Fresh (Run.after (History.step aead) (.start key baseNonce) calls) :=
    Run.invariant _ (fun _ _ fresh below => fresh.step below)
      ⟨[], rfl, List.nodup_nil, fun _ member => absurd member List.not_mem_nil⟩ below
  exact fresh.nodup

/-- ChaCha20-Poly1305 on an empty plaintext, with a key of zeros and three nonces. -/
def sampleAead : Aead := fun key nonce plaintext =>
  if key = Vector.replicate 32 0 ∧ plaintext = [] then
    if nonce = .replicate 12 0 then
      .ok [0x4e, 0xb9, 0x72, 0xc9, 0xa8, 0xfb, 0x3a, 0x1b, 0x38, 0x2b, 0xb4, 0xd3, 0x6f, 0x5f,
        0xfa, 0xd1]
    else if nonce = #v[0, 0, 0, 0, 1, 0, 0, 0, 0, 0, 0, 0] then
      .ok [0xf0, 0x72, 0xad, 0x3c, 0x07, 0x3a, 0x98, 0xba, 0x24, 0xda, 0x8e, 0xe1, 0x43, 0xad,
        0x58, 0x32]
    else if nonce = #v[0, 0, 0, 0, 255, 255, 255, 255, 255, 255, 255, 255] then
      .ok [0x4f, 0xf8, 0x95, 0x37, 0x81, 0x87, 0x04, 0x47, 0x02, 0x4c, 0x32, 0xe5, 0x90, 0xce,
        0xf1, 0x4e]
    else .error "unknown nonce"
  else .error "unknown input"

/-- After the maximum the counter starts again, and so do the nonces. -/
theorem nonce_reused_after_maximum :
    ¬ (Run.after (History.step sampleAead) (.start (.replicate 32 0) (.replicate 12 0))
      [.encryptChunk [], .skipToCounter (2 ^ 64 - 1), .encryptChunk [],
        .encryptChunk []]).used.Nodup := by
  decide +kernel

/-- Two chunks of one call, and a skip to the maximum behind them. -/
theorem nonces_fresh_skip :
    (Run.after (History.step sampleAead) (.start (.replicate 32 0) (.replicate 12 0))
      [.encryptChunks [[], []], .skipToCounter (2 ^ 64 - 1)]).used.Nodup :=
  nonces_fresh _ _ _ _ (by decide +kernel)

end Warp.Crypto
