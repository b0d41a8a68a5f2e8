import Mathlib.Data.UInt
import Warp.Foundation.Blocks
import Warp.Foundation.Outcome

/-! # Envelope encryption in chunks

Every chunk is authenticated on its own, with its index in the nonce, and nothing binds the chunks
to each other: a rearranged message fails or gives the plaintext exactly if some chunk is not
genuine or the pieces at its indices make up the plaintext (`StreamingEnvelope.rearranged_iff`). The
ciphers and the provider of keys are parameters.
-/

namespace Warp.Kms

open Outcome

inductive KeyAlgorithm where
  | aes256Gcm
  | chaCha20Poly1305
  deriving DecidableEq

inductive KmsError where
  | keyNotFound (text : String)
  | keyPendingDeletion (text : String)
  | keyDisabled (text : String)
  | invalidKeyState (text : String)
  | invalidCiphertext (text : String)
  | decryptionFailed (text : String)
  | encryptionFailed (text : String)
  | keyGenerationFailed (text : String)
  | invalidKeyId (text : String)
  | aliasAlreadyExists (text : String)
  | keyVersionNotFound (text : String)
  | serializationError (text : String)
  | configurationError (text : String)
  | internalError (text : String)
  | notSupported (text : String)
  deriving DecidableEq

abbrev Nonce := Vector UInt8 12

structure Aead where
  encrypt : Nonce → Bytes → Except String Bytes
  decrypt : Nonce → Bytes → Except String Bytes

abbrev Ciphers := KeyAlgorithm → Bytes → Except String Aead

structure DataKey where
  plaintext : Bytes
  ciphertext : Bytes

structure KmsProvider where
  generateDataKey : String → Except KmsError DataKey
  decryptDataKey : String → Bytes → Except KmsError Bytes

structure EncryptedChunk where
  index : UInt64
  nonce : Bytes
  ciphertext : Bytes
  deriving DecidableEq

structure ChunkedEncryptedData where
  encryptedDataKey : Bytes
  masterKeyId : String
  algorithm : KeyAlgorithm
  chunkSize : ℕ
  totalChunks : ℕ
  chunks : List EncryptedChunk
  deriving DecidableEq

structure StreamingEnvelope where
  kms : KmsProvider
  chunkSize : ℕ
  algorithm : KeyAlgorithm

namespace StreamingEnvelope

def new (kms : KmsProvider) : StreamingEnvelope := ⟨kms, 64 * 1024, .aes256Gcm⟩

def withChunkSize (envelope : StreamingEnvelope) (size : ℕ) : StreamingEnvelope :=
  { envelope with chunkSize := size }

variable (ciphers : Ciphers) (envelope : StreamingEnvelope)

def cipher (algorithm : KeyAlgorithm) (key : Bytes) : Except KmsError Aead :=
  (ciphers algorithm key).mapError fun text => .internalError s!"Failed to create cipher: {text}"

def nonceBytes (random : Vector UInt8 4) (chunkIndex : UInt64) : Bytes :=
  random.toList ++ Bytes.leBytes 8 chunkIndex.toNat

def encryptChunk (key plaintext : Bytes) (chunkIndex : UInt64) (random : Vector UInt8 4) :
    Except KmsError (Bytes × Bytes) := do
  let nonce := nonceBytes random chunkIndex
  let aead ← cipher ciphers envelope.algorithm key
  let ciphertext ← (aead.encrypt (Bytes.toVector 12 nonce) plaintext).mapError fun text =>
    KmsError.encryptionFailed s!"Chunk encryption failed: {text}"
  return (ciphertext, nonce)

def decryptChunk (key nonce ciphertext : Bytes) (expectedIndex : UInt64)
    (algorithm : KeyAlgorithm) : Except KmsError Bytes := do
  if nonce.length ≠ 12 then throw (.invalidCiphertext "Invalid nonce length")
  let storedIndex := Bytes.leValue (nonce.drop 4)
  if storedIndex ≠ expectedIndex.toNat then
    throw (.invalidCiphertext
      s!"Chunk index mismatch: expected {expectedIndex.toNat}, got {storedIndex}")
  let aead ← cipher ciphers algorithm key
  (aead.decrypt (Bytes.toVector 12 nonce) ciphertext).mapError fun text =>
    KmsError.decryptionFailed s!"Chunk decryption failed: {text}"

variable (random : UInt64 → Vector UInt8 4)

def encryptChunks (key : Bytes) : UInt64 → List Bytes → Except KmsError (List EncryptedChunk)
  | _, [] => return []
  | chunkIndex, chunk :: rest => do
      let (ciphertext, nonce) ← envelope.encryptChunk ciphers key chunk chunkIndex
        (random chunkIndex)
      let others ← encryptChunks key (chunkIndex + 1) rest
      return ⟨chunkIndex, nonce, ciphertext⟩ :: others

def encryptChunked (keyId : String) (plaintext : Bytes) :
    Outcome KmsError ChunkedEncryptedData := do
  let dataKey ← .ofExcept (envelope.kms.generateDataKey keyId)
  if envelope.chunkSize = 0 then Outcome.panic
  else
    let chunks ← .ofExcept (envelope.encryptChunks ciphers random dataKey.plaintext 0
      (Bytes.chunks envelope.chunkSize plaintext))
    return {
      encryptedDataKey := dataKey.ciphertext
      masterKeyId := keyId
      algorithm := envelope.algorithm
      chunkSize := envelope.chunkSize
      totalChunks := chunks.length
      chunks }

def decryptChunks (key : Bytes) (algorithm : KeyAlgorithm) :
    List EncryptedChunk → Except KmsError Bytes
  | [] => return []
  | chunk :: rest => do
      let decrypted ← decryptChunk ciphers key chunk.nonce chunk.ciphertext chunk.index algorithm
      let others ← decryptChunks key algorithm rest
      return decrypted ++ others

def decryptChunked (keyId : String) (encrypted : ChunkedEncryptedData) :
    Except KmsError Bytes := do
  let dataKey ← envelope.kms.decryptDataKey keyId encrypted.encryptedDataKey
  decryptChunks ciphers dataKey encrypted.algorithm encrypted.chunks

/-- The piece of the plaintext that the chunk with an index is for. -/
def piece (size : ℕ) (plaintext : Bytes) (chunkIndex : UInt64) : Bytes :=
  (Bytes.chunks size plaintext).getD chunkIndex.toNat []

end StreamingEnvelope

/-- What was encrypted is decrypted with the same nonce. -/
def Ciphers.Correct (ciphers : Ciphers) : Prop :=
  ∀ algorithm key aead, ciphers algorithm key = .ok aead → ∀ nonce plaintext ciphertext,
    aead.encrypt nonce plaintext = .ok ciphertext → aead.decrypt nonce ciphertext = .ok plaintext

/-- Under a key only the listed chunks were produced, and nothing else is decrypted. -/
def Ciphers.Ideal (ciphers : Ciphers) (key : Bytes) (algorithm : KeyAlgorithm)
    (produced : List EncryptedChunk) : Prop :=
  ∀ other aead, ciphers other key = .ok aead → ∀ nonce ciphertext plaintext,
    aead.decrypt nonce ciphertext = .ok plaintext →
      other = algorithm ∧ ∃ chunk ∈ produced, chunk.nonce = nonce.toList ∧
        chunk.ciphertext = ciphertext

namespace StreamingEnvelope

open Outcome (except_bind_eq_ok_iff mapError_eq_ok_iff)

variable {ciphers : Ciphers} {envelope : StreamingEnvelope} {random : UInt64 → Vector UInt8 4}
  {key : Bytes} {chunk : EncryptedChunk} {data : Bytes}

section Chunks

theorem length_nonceBytes (random : Vector UInt8 4) (chunkIndex : UInt64) :
    (nonceBytes random chunkIndex).length = 12 := by
  rw [nonceBytes, List.length_append, Vector.length_toList, Bytes.length_leBytes]

theorem leValue_nonceBytes (random : Vector UInt8 4) (chunkIndex : UInt64) :
    Bytes.leValue ((nonceBytes random chunkIndex).drop 4) = chunkIndex.toNat := by
  rw [nonceBytes, List.drop_left' random.length_toList, Bytes.leValue_leBytes]
  exact chunkIndex.toNat_lt

theorem encryptChunk_eq_ok_iff {plaintext ciphertext nonce : Bytes} {chunkIndex : UInt64}
    {random : Vector UInt8 4} :
    envelope.encryptChunk ciphers key plaintext chunkIndex random = .ok (ciphertext, nonce) ↔
      ∃ aead, ciphers envelope.algorithm key = .ok aead ∧ nonceBytes random chunkIndex = nonce ∧
        aead.encrypt (Bytes.toVector 12 nonce) plaintext = .ok ciphertext := by
  unfold encryptChunk cipher
  rw [except_bind_eq_ok_iff]
  refine exists_congr fun aead => and_congr mapError_eq_ok_iff ?_
  rw [except_bind_eq_ok_iff]
  constructor
  · rintro ⟨produced, encrypted, same⟩
    cases same
    exact ⟨rfl, mapError_eq_ok_iff.mp encrypted⟩
  · rintro ⟨rfl, encrypted⟩
    exact ⟨ciphertext, mapError_eq_ok_iff.mpr encrypted, rfl⟩

variable {algorithm : KeyAlgorithm} {chunks : List EncryptedChunk}

theorem decryptChunk_eq_ok_iff {nonce ciphertext plaintext : Bytes} {expectedIndex : UInt64} :
    decryptChunk ciphers key nonce ciphertext expectedIndex algorithm = .ok plaintext ↔
      nonce.length = 12 ∧ Bytes.leValue (nonce.drop 4) = expectedIndex.toNat ∧
        ∃ aead, ciphers algorithm key = .ok aead ∧
          aead.decrypt (Bytes.toVector 12 nonce) ciphertext = .ok plaintext := by
  unfold decryptChunk cipher
  by_cases length : nonce.length = 12
  · by_cases index : Bytes.leValue (nonce.drop 4) = expectedIndex.toNat
    · rw [if_neg (not_not.mpr length), if_neg (not_not.mpr index), and_iff_right length,
        and_iff_right index]
      refine except_bind_eq_ok_iff.trans (exists_congr fun aead => ?_)
      exact and_congr mapError_eq_ok_iff mapError_eq_ok_iff
    · rw [if_neg (not_not.mpr length), if_pos index, and_iff_right length]
      exact iff_of_false (fun failed => nomatch failed) fun decrypted => index decrypted.1
  · rw [if_pos length]
    exact iff_of_false (fun failed => nomatch failed) fun decrypted => length decrypted.1

/-- The loop over the chunks, when it is known what each of them decrypts to. -/
theorem decryptChunks_eq_ok_iff {genuine : EncryptedChunk → Prop} {value : EncryptedChunk → Bytes}
    (single : ∀ chunk data, decryptChunk ciphers key chunk.nonce chunk.ciphertext chunk.index
      algorithm = .ok data ↔ genuine chunk ∧ data = value chunk) :
    decryptChunks ciphers key algorithm chunks = .ok data ↔
      (∀ chunk ∈ chunks, genuine chunk) ∧ data = chunks.flatMap value := by
  induction chunks generalizing data with
  | nil =>
    refine Iff.trans ?_ (and_iff_right (List.forall_mem_nil _)).symm
    exact ⟨fun same => by cases same; rfl, fun same => by rw [same]; rfl⟩
  | cons chunk rest ih =>
    rw [decryptChunks, except_bind_eq_ok_iff, List.forall_mem_cons, List.flatMap_cons]
    constructor
    · rintro ⟨first, decrypted, others⟩
      obtain ⟨isGenuine, rfl⟩ := (single chunk first).mp decrypted
      obtain ⟨tail, decryptedRest, same⟩ := except_bind_eq_ok_iff.mp others
      obtain ⟨areGenuine, rfl⟩ := ih.mp decryptedRest
      cases same
      exact ⟨⟨isGenuine, areGenuine⟩, rfl⟩
    · rintro ⟨⟨isGenuine, areGenuine⟩, rfl⟩
      exact ⟨_, (single chunk _).mpr ⟨isGenuine, rfl⟩,
        except_bind_eq_ok_iff.mpr ⟨_, ih.mpr ⟨areGenuine, rfl⟩, rfl⟩⟩

/-- Every chunk is the encryption of the piece at its index. -/
theorem encryptChunk_of_mem {start : UInt64} {pieces : List Bytes}
    (encrypted : envelope.encryptChunks ciphers random key start pieces = .ok chunks)
    (member : chunk ∈ chunks) :
    ∃ place piece, pieces[place]? = some piece ∧ chunk.index = start + UInt64.ofNat place ∧
      envelope.encryptChunk ciphers key piece chunk.index (random chunk.index) =
        .ok (chunk.ciphertext, chunk.nonce) := by
  induction pieces generalizing start chunks with
  | nil =>
    cases encrypted
    cases member
  | cons piece rest ih =>
    rw [encryptChunks] at encrypted
    obtain ⟨⟨ciphertext, nonce⟩, first, others⟩ := except_bind_eq_ok_iff.mp encrypted
    obtain ⟨tail, encryptedRest, same⟩ := except_bind_eq_ok_iff.mp others
    cases same
    rcases List.mem_cons.mp member with rfl | later
    · exact ⟨0, piece, rfl, (add_zero start).symm, first⟩
    · obtain ⟨place, found, isPiece, index, sealed⟩ := ih encryptedRest later
      refine ⟨place + 1, found, isPiece, index.trans ?_, sealed⟩
      rw [UInt64.ofNat_add, add_assoc, add_comm (1 : UInt64)]
      rfl

theorem decryptChunks_encryptChunks (correct : ciphers.Correct) {start : UInt64}
    {pieces : List Bytes}
    (encrypted : envelope.encryptChunks ciphers random key start pieces = .ok chunks) :
    decryptChunks ciphers key envelope.algorithm chunks = .ok pieces.flatten := by
  induction pieces generalizing start chunks with
  | nil =>
    cases encrypted
    rfl
  | cons piece rest ih =>
    rw [encryptChunks] at encrypted
    obtain ⟨⟨ciphertext, nonce⟩, first, others⟩ := except_bind_eq_ok_iff.mp encrypted
    obtain ⟨tail, encryptedRest, same⟩ := except_bind_eq_ok_iff.mp others
    cases same
    obtain ⟨aead, created, rfl, sealed⟩ := encryptChunk_eq_ok_iff.mp first
    have plain := correct _ _ aead created _ _ _ sealed
    have opened := decryptChunk_eq_ok_iff.mpr
      ⟨length_nonceBytes .., leValue_nonceBytes .., aead, created, plain⟩
    rw [decryptChunks, except_bind_eq_ok_iff]
    exact ⟨_, opened, except_bind_eq_ok_iff.mpr ⟨_, ih encryptedRest, rfl⟩⟩

end Chunks

variable {plaintext : Bytes} {chunks : List EncryptedChunk} {keyId : String}

/-- A chunk of the encryption is that of its piece of the plaintext. -/
theorem encryptChunk_piece (positive : 0 < envelope.chunkSize) (fits : plaintext.length < 2 ^ 64)
    (encrypted : envelope.encryptChunks ciphers random key 0
      (Bytes.chunks envelope.chunkSize plaintext) = .ok chunks) (member : chunk ∈ chunks) :
    envelope.encryptChunk ciphers key (piece envelope.chunkSize plaintext chunk.index) chunk.index
      (random chunk.index) = .ok (chunk.ciphertext, chunk.nonce) := by
  obtain ⟨place, found, isPiece, index, sealed⟩ := encryptChunk_of_mem encrypted member
  have inside := (List.getElem?_eq_some_iff.mp isPiece).1
  have bound := inside.trans_le (Bytes.length_chunks_le positive plaintext)
  have number : chunk.index.toNat = place := by
    rw [index, zero_add, UInt64.toNat_ofNat_of_lt' (bound.trans fits)]
  rwa [piece, number, List.getD_eq_getElem?_getD, isPiece]

section
variable (correct : ciphers.Correct) (ideal : ciphers.Ideal key envelope.algorithm chunks)
  (positive : 0 < envelope.chunkSize) (fits : plaintext.length < 2 ^ 64)
  (encrypted : envelope.encryptChunks ciphers random key 0
    (Bytes.chunks envelope.chunkSize plaintext) = .ok chunks)
include correct ideal positive fits encrypted

/-- Exactly the chunks of the encryption are decrypted, each to its piece of the plaintext. -/
theorem decryptChunk_eq_ok_iff_mem (algorithm : KeyAlgorithm) (chunk : EncryptedChunk)
    (data : Bytes) :
    decryptChunk ciphers key chunk.nonce chunk.ciphertext chunk.index algorithm = .ok data ↔
      (algorithm = envelope.algorithm ∧ chunk ∈ chunks) ∧
        data = piece envelope.chunkSize plaintext chunk.index := by
  have produced : ∀ chunk ∈ chunks, ∃ aead, ciphers envelope.algorithm key = .ok aead ∧
      nonceBytes (random chunk.index) chunk.index = chunk.nonce ∧
      aead.decrypt (Bytes.toVector 12 chunk.nonce) chunk.ciphertext =
        .ok (piece envelope.chunkSize plaintext chunk.index) := by
    intro chunk member
    obtain ⟨aead, created, nonce, sealed⟩ :=
      encryptChunk_eq_ok_iff.mp (encryptChunk_piece positive fits encrypted member)
    exact ⟨aead, created, nonce, correct _ _ aead created _ _ _ sealed⟩
  rw [decryptChunk_eq_ok_iff]
  constructor
  · rintro ⟨length, index, aead, created, decrypted⟩
    obtain ⟨rfl, original, member, nonce, ciphertext⟩ :=
      ideal algorithm aead created _ _ _ decrypted
    rw [Bytes.toList_toVector length] at nonce
    obtain ⟨same, createdAgain, sealed, plain⟩ := produced original member
    -- the nonce of a chunk tells its index, so the chunk is the original one
    have sameIndex : original.index = chunk.index := by
      rw [← UInt64.toNat_inj, ← index, ← nonce, ← sealed, leValue_nonceBytes]
    have isOriginal : original = chunk := by
      cases original
      cases chunk
      cases sameIndex
      cases nonce
      cases ciphertext
      rfl
    subst isOriginal
    cases created.symm.trans createdAgain
    exact ⟨⟨rfl, member⟩, Except.ok.inj (decrypted.symm.trans plain)⟩
  · rintro ⟨⟨rfl, member⟩, rfl⟩
    obtain ⟨aead, created, nonce, plain⟩ := produced chunk member
    refine ⟨?_, ?_, aead, created, plain⟩
    · rw [← nonce, length_nonceBytes]
    · rw [← nonce, leValue_nonceBytes]

/-- What a message with the encrypted data key of another one decrypts to. -/
theorem decryptChunked_eq_ok_iff {received : ChunkedEncryptedData}
    (opened : envelope.kms.decryptDataKey keyId received.encryptedDataKey = .ok key) :
    envelope.decryptChunked ciphers keyId received = .ok data ↔
      (∀ chunk ∈ received.chunks, received.algorithm = envelope.algorithm ∧ chunk ∈ chunks) ∧
        data = received.chunks.flatMap fun chunk =>
          piece envelope.chunkSize plaintext chunk.index := by
  unfold decryptChunked
  rw [opened]
  exact decryptChunks_eq_ok_iff (decryptChunk_eq_ok_iff_mem correct ideal positive fits encrypted _)

end

theorem encryptChunked_eq_ok {encrypted : ChunkedEncryptedData}
    (done : envelope.encryptChunked ciphers random keyId plaintext = .ok encrypted) :
    0 < envelope.chunkSize ∧ encrypted.algorithm = envelope.algorithm ∧
      ∃ dataKey, envelope.kms.generateDataKey keyId = .ok dataKey ∧
        encrypted.encryptedDataKey = dataKey.ciphertext ∧
        envelope.encryptChunks ciphers random dataKey.plaintext 0
          (Bytes.chunks envelope.chunkSize plaintext) = .ok encrypted.chunks := by
  unfold encryptChunked at done
  rw [bind_eq, bind_eq_ok_iff] at done
  obtain ⟨dataKey, generated, done⟩ := done
  split_ifs at done with zero
  rw [bind_eq, bind_eq_ok_iff] at done
  obtain ⟨chunks, sealed, same⟩ := done
  cases same
  exact ⟨Nat.pos_of_ne_zero zero, rfl, dataKey, ofExcept_eq_ok_iff.mp generated, rfl,
    ofExcept_eq_ok_iff.mp sealed⟩

/-- The chunks of a received message are chunks of the original one, under the same algorithm. -/
def Genuine (original received : ChunkedEncryptedData) : Prop :=
  ∀ chunk ∈ received.chunks, received.algorithm = original.algorithm ∧ chunk ∈ original.chunks
  deriving Decidable

/-- **Rearranging a message.** A message with the encrypted data key of an encryption fails to be
decrypted, or gives the plaintext, exactly if it has a chunk that is not genuine or the pieces at
its indices make up the plaintext. -/
theorem rearranged_iff (ciphers : Ciphers) (correct : ciphers.Correct)
    (envelope : StreamingEnvelope) (random : UInt64 → Vector UInt8 4) (keyId : String)
    (plaintext : Bytes) (fits : plaintext.length < 2 ^ 64) (original : ChunkedEncryptedData)
    (encrypted : envelope.encryptChunked ciphers random keyId plaintext = .ok original)
    (ideal : ∀ dataKey, envelope.kms.generateDataKey keyId = .ok dataKey →
      ciphers.Ideal dataKey.plaintext envelope.algorithm original.chunks)
    (received : ChunkedEncryptedData)
    (sameKey : received.encryptedDataKey = original.encryptedDataKey) (readerId : String)
    (opened : ∀ dataKey, envelope.kms.generateDataKey keyId = .ok dataKey →
      envelope.kms.decryptDataKey readerId dataKey.ciphertext = .ok dataKey.plaintext) :
    (∀ data, envelope.decryptChunked ciphers readerId received = .ok data → data = plaintext) ↔
      ¬Genuine original received ∨ (received.chunks.flatMap fun chunk =>
        piece envelope.chunkSize plaintext chunk.index) = plaintext := by
  obtain ⟨positive, algorithm, dataKey, generated, dataKeyIs, sealed⟩ :=
    encryptChunked_eq_ok encrypted
  have unlocked := opened dataKey generated
  rw [← dataKeyIs, ← sameKey] at unlocked
  have decrypted : ∀ data, envelope.decryptChunked ciphers readerId received = .ok data ↔ _ :=
    fun data => decryptChunked_eq_ok_iff correct (ideal dataKey generated) positive fits sealed
      unlocked
  simp only [decrypted]
  unfold Genuine
  rw [algorithm]
  constructor
  · intro faithful
    by_cases genuine : ∀ chunk ∈ received.chunks,
        received.algorithm = envelope.algorithm ∧ chunk ∈ original.chunks
    · exact .inr (faithful _ ⟨genuine, rfl⟩)
    · exact .inl genuine
  · rintro (altered | complete) data ⟨genuine, rfl⟩
    · exact absurd genuine altered
    · exact complete

/-- Two bytes, each in a chunk of its own. -/
def sampleMessage : ChunkedEncryptedData where
  encryptedDataKey := [1, 2, 3]
  masterKeyId := "key"
  algorithm := .aes256Gcm
  chunkSize := 1
  totalChunks := 2
  chunks := [⟨0, nonceBytes (Vector.replicate 4 9) 0, [0xff, 1]⟩,
    ⟨1, nonceBytes (Vector.replicate 4 9) 1, [0xff, 2]⟩]

/-- A chunk of the message has this nonce and ciphertext. -/
def SampleSeals (nonce : Nonce) (ciphertext : Bytes) : Prop :=
  ∃ chunk ∈ sampleMessage.chunks, chunk.nonce = nonce.toList ∧ chunk.ciphertext = ciphertext
  deriving Decidable

/-- A cipher that puts a mark before the pieces of the message and refuses everything else. -/
def sampleCiphers : Ciphers := fun algorithm _ =>
  if algorithm = .aes256Gcm then .ok {
    encrypt := fun nonce plaintext =>
      if SampleSeals nonce (0xff :: plaintext) then .ok (0xff :: plaintext) else .error "aead"
    decrypt := fun nonce ciphertext =>
      if SampleSeals nonce ciphertext then .ok ciphertext.tail else .error "aead" }
  else .error "key"

/-- Chunks of one byte, and a provider with one data key. -/
def sampleEnvelope : StreamingEnvelope :=
  (new ⟨fun _ => .ok ⟨[7], [1, 2, 3]⟩, fun _ _ => .ok [7]⟩).withChunkSize 1

def sampleRandom : UInt64 → Vector UInt8 4 := fun _ => Vector.replicate 4 9

theorem sampleCiphers_correct : sampleCiphers.Correct := by
  intro algorithm key aead created nonce plaintext ciphertext encrypted
  unfold sampleCiphers at created
  split_ifs at created
  cases created
  dsimp only at encrypted ⊢
  split_ifs at encrypted with sealed
  cases encrypted
  exact if_pos sealed

theorem sampleCiphers_ideal (key : Bytes) :
    sampleCiphers.Ideal key .aes256Gcm sampleMessage.chunks := by
  intro other aead created nonce ciphertext plaintext decrypted
  unfold sampleCiphers at created
  split_ifs at created with same
  cases created
  dsimp only at decrypted
  split_ifs at decrypted with sealed
  exact ⟨same, sealed⟩

/-- With a byte changed the message cannot give another plaintext, with its first chunk alone it
does. -/
theorem rearranged_iff_changed :
    let changed := { sampleMessage with
      chunks := sampleMessage.chunks.map fun chunk => { chunk with ciphertext := [0xff, 1] } }
    let cut := { sampleMessage with chunks := sampleMessage.chunks.take 1 }
    (∀ data, sampleEnvelope.decryptChunked sampleCiphers "key" changed = .ok data →
        data = [1, 2]) ∧
      ¬∀ data, sampleEnvelope.decryptChunked sampleCiphers "key" cut = .ok data →
        data = [1, 2] := by
  intro changed cut
  have rearranged received (sameKey : received.encryptedDataKey = sampleMessage.encryptedDataKey) :=
    rearranged_iff sampleCiphers sampleCiphers_correct sampleEnvelope sampleRandom "key" [1, 2]
      (by decide) sampleMessage rfl (fun _ _ => sampleCiphers_ideal _) received sameKey "key"
      (fun _ generated => by cases generated; rfl)
  refine ⟨(rearranged changed rfl).mpr (.inl (by decide)), fun faithful => ?_⟩
  rcases (rearranged cut rfl).mp faithful with altered | complete
  · exact altered (by decide)
  · exact absurd complete (by decide)

/-- The chunks in the other order are decrypted, to the bytes in the other order. -/
theorem rearranged_swapped :
    sampleEnvelope.encryptChunked sampleCiphers sampleRandom "key" [1, 2] = .ok sampleMessage ∧
      sampleEnvelope.decryptChunked sampleCiphers "key"
        { sampleMessage with chunks := sampleMessage.chunks.reverse } = .ok [2, 1] :=
  ⟨rfl, rfl⟩

variable (random keyId) in
/-- **Round trip.** Every message that was encrypted decrypts to its plaintext for everyone whom the
provider of keys gives the data key. -/
theorem decryptChunked_encryptChunked (correct : ciphers.Correct) {message : ChunkedEncryptedData}
    (encrypted : envelope.encryptChunked ciphers random keyId plaintext = .ok message)
    {readerId : String} (opened : ∀ dataKey, envelope.kms.generateDataKey keyId = .ok dataKey →
      envelope.kms.decryptDataKey readerId dataKey.ciphertext = .ok dataKey.plaintext) :
    envelope.decryptChunked ciphers readerId message = .ok plaintext := by
  obtain ⟨positive, algorithm, dataKey, generated, dataKeyIs, sealed⟩ :=
    encryptChunked_eq_ok encrypted
  have decrypted := decryptChunks_encryptChunks correct sealed
  rw [Bytes.flatten_chunks positive] at decrypted
  rw [decryptChunked, dataKeyIs, opened dataKey generated, algorithm]
  exact decrypted

/-- A message of two chunks. -/
theorem decryptChunked_encryptChunked_sample :
    sampleEnvelope.decryptChunked sampleCiphers "key" sampleMessage = .ok [1, 2] :=
  decryptChunked_encryptChunked sampleRandom "key" sampleCiphers_correct rfl
    fun _ generated => by cases generated; rfl

end StreamingEnvelope

end Warp.Kms
