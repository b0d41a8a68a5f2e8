import Warp.Foundation.Bytes

/-! # Cryptographic primitives for WireGuard

Hashing, key derivation and authenticated encryption over the primitives of the crypto
libraries, with the buffers that results are copied into.
-/

namespace Warp.Noise

inductive WireGuardError where
  | destinationBufferTooSmall
  | invalidPacket
  | noSession
  | sessionExpired
  | decryptionFailed
  | encryptionFailed
  | handshakeFailed
  | replayAttack
  | invalidPublicKey
  | wrongMessageType
  | handshakeInProgress
  | rateLimited
deriving DecidableEq

abbrev Key := Vector UInt8 32

def tagLen : ℕ := 16

/-- BLAKE2s and its keyed form, X25519, and ChaCha20-Poly1305 with a key, a nonce, a message
and associated data. -/
structure Primitives where
  blake2s : Bytes → Key
  blake2sMac : Bytes → Bytes → Key
  publicKey : Key → Key
  diffieHellman : Key → Key → Key
  encrypt : Key → Bytes → Bytes → Bytes → Option Bytes
  decrypt : Key → Bytes → Bytes → Bytes → Option Bytes

namespace Primitives

def noiseProtocolName : Bytes := "Noise_IKpsk2_25519_ChaChaPoly_BLAKE2s".toUTF8.toList

def wgIdentifier : Bytes := "WireGuard v1 zx2c4 Jason@zx2c4.com".toUTF8.toList

variable (crypto : Primitives) {result : ℕ × Bytes} {counter : UInt64} {key : Key}

def hash (data : Bytes) : Key := crypto.blake2s data

def hashMany (data : List Bytes) : Key := crypto.blake2s data.flatten

def hmac (key data : Bytes) : Key :=
  crypto.blake2sMac (if key.length > 32 then (crypto.hash key).toList else key) data

def hkdf2 (chainingKey : Key) (input : Bytes) : Key × Key :=
  let prk := (crypto.hmac chainingKey.toList input).toList
  let t1 := crypto.hmac prk [1]
  let t2 := crypto.hmac prk (t1.toList ++ [2])
  (t1, t2)

def hkdf3 (chainingKey : Key) (input : Bytes) : Key × Key × Key :=
  let prk := (crypto.hmac chainingKey.toList input).toList
  let t1 := crypto.hmac prk [1]
  let t2 := crypto.hmac prk (t1.toList ++ [2])
  let t3 := crypto.hmac prk (t2.toList ++ [3])
  (t1, t2, t3)

def nonce (counter : UInt64) : Bytes := [0, 0, 0, 0] ++ Bytes.leBytes 8 counter.toNat

/-- ChaCha20-Poly1305 AEAD encryption: the length of the ciphertext, and the output buffer
with the ciphertext in front. -/
def aeadEncrypt (key : Key) (counter : UInt64) (plaintext aad output : Bytes) :
    Except WireGuardError (ℕ × Bytes) :=
  match crypto.encrypt key (nonce counter) plaintext aad with
  | none => .error .encryptionFailed
  | some ciphertext =>
    if output.length < ciphertext.length then .error .destinationBufferTooSmall
    else .ok (ciphertext.length, ciphertext ++ output.drop ciphertext.length)

/-- ChaCha20-Poly1305 AEAD decryption: the length of the plaintext, and the output buffer
with the plaintext in front. -/
def aeadDecrypt (key : Key) (counter : UInt64) (ciphertext aad output : Bytes) :
    Except WireGuardError (ℕ × Bytes) :=
  if ciphertext.length < tagLen then .error .invalidPacket
  else
    match crypto.decrypt key (nonce counter) ciphertext aad with
    | none => .error .decryptionFailed
    | some plaintext =>
      if output.length < plaintext.length then .error .destinationBufferTooSmall
      else .ok (plaintext.length, plaintext ++ output.drop plaintext.length)

theorem aeadEncrypt_eq_ok_iff {plaintext aad output : Bytes} :
    crypto.aeadEncrypt key counter plaintext aad output = .ok result ↔
      ∃ ciphertext, crypto.encrypt key (nonce counter) plaintext aad = some ciphertext ∧
        ciphertext.length ≤ output.length ∧
        (ciphertext.length, ciphertext ++ output.drop ciphertext.length) = result := by
  unfold aeadEncrypt
  cases crypto.encrypt key (nonce counter) plaintext aad with
  | none => simp
  | some ciphertext =>
    by_cases small : output.length < ciphertext.length
    · simp [small]
    · simp [small, Nat.not_lt.mp small]

theorem aeadDecrypt_eq_ok_iff {ciphertext aad output : Bytes} :
    crypto.aeadDecrypt key counter ciphertext aad output = .ok result ↔
      tagLen ≤ ciphertext.length ∧
      ∃ plaintext, crypto.decrypt key (nonce counter) ciphertext aad = some plaintext ∧
        plaintext.length ≤ output.length ∧
        (plaintext.length, plaintext ++ output.drop plaintext.length) = result := by
  unfold aeadDecrypt
  by_cases short : ciphertext.length < tagLen
  · rw [if_pos short]
    exact iff_of_false nofun fun long => Nat.not_lt.mpr long.1 short
  · rw [if_neg short, and_iff_right (Nat.not_lt.mp short)]
    cases crypto.decrypt key (nonce counter) ciphertext aad with
    | none => simp
    | some plaintext =>
      by_cases small : output.length < plaintext.length
      · simp [small]
      · simp [small, Nat.not_lt.mp small]

/-- For these keys, what is encrypted with a key is decrypted with it and rejected with the
others. -/
structure Authenticates (keys : Set Key) : Prop where
  length : ∀ key ∈ keys, ∀ nonce message aad ciphertext,
    crypto.encrypt key nonce message aad = some ciphertext →
      ciphertext.length = message.length + tagLen
  decrypts : ∀ key ∈ keys, ∀ nonce message aad ciphertext,
    crypto.encrypt key nonce message aad = some ciphertext →
      crypto.decrypt key nonce ciphertext aad = some message
  rejects : ∀ key ∈ keys, ∀ other ∈ keys, other ≠ key → ∀ nonce message aad ciphertext,
    crypto.encrypt key nonce message aad = some ciphertext →
      crypto.decrypt other nonce ciphertext aad = none

def checksum (bytes : Bytes) : UInt8 :=
  .ofNat (bytes.foldl (fun sum byte => sum * 31 + byte.toNat) 1)

def byteKey (byte : UInt8) : Key := ⟨⟨byte :: .replicate 31 0⟩, by simp⟩

/-- Checksums in the place of hashes and tags, and products in that of shared secrets: enough
to run the protocol on concrete inputs. -/
def checksums : Primitives where
  blake2s data := byteKey (checksum data)
  blake2sMac key data := byteKey (checksum (key ++ data))
  publicKey secret := secret
  diffieHellman secret peer := byteKey (secret[0] * peer[0])
  encrypt key nonce message aad :=
    some (message ++ .replicate 16 (checksum (key.toList ++ nonce ++ message ++ aad)))
  decrypt key nonce ciphertext aad :=
    let message := ciphertext.take (ciphertext.length - 16)
    if ciphertext.drop message.length =
        .replicate 16 (checksum (key.toList ++ nonce ++ message ++ aad))
    then some message else none

end Primitives

end Warp.Noise
