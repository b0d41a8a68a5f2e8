import Warp.Net.WireFormat

/-! # The frame codec

A frame is confined to the length its header declares exactly if its payload describes the
same length (`Frame.confined_iff_described`). Frames that are encoded one after
another come out of the stream in order, in whatever pieces it arrives
(`Frame.receive_encoded`). An encoding that fails leaves what it has written in the buffer
(`Frame.failed_encode_restores_iff`).
-/

namespace Warp.Net

open FrameHeader
open List (append_assoc append_nil drop_left' flatten_cons flatten_nil length_append
  take_append_drop)

namespace Frame

variable (wire : Serialization) {bytes : Bytes}

section Sample

/-- Two nodes that prefer different algorithms, with the bytes `rmp_serde` writes for them. -/
def sampleCaps : Capabilities :=
  { nodeId := "a", hostname := "h", cpuCores := 1, gpu := none, compression := ["zstd", "lz4"],
    hashes := ["blake3"], maxChunkSize := 65536, maxStreams := 16, supportsDedup := true,
    supportsEncryption := false }

@[inherit_doc sampleCaps]
def otherCaps : Capabilities := { sampleCaps with compression := ["lz4", "zstd"] }

@[inherit_doc sampleCaps]
def sampleBytes : Bytes :=
  [0x9a, 0xa1, 0x61, 0xa1, 0x68, 0x01, 0xc0, 0x92, 0xa4, 0x7a, 0x73, 0x74, 0x64, 0xa3, 0x6c,
    0x7a, 0x34, 0x91, 0xa6, 0x62, 0x6c, 0x61, 0x6b, 0x65, 0x33, 0xce, 0x00, 0x01, 0x00, 0x00,
    0x10, 0xc3, 0xc2]

@[inherit_doc sampleCaps]
def otherBytes : Bytes :=
  [0x9a, 0xa1, 0x61, 0xa1, 0x68, 0x01, 0xc0, 0x92, 0xa3, 0x6c, 0x7a, 0x34, 0xa4, 0x7a, 0x73,
    0x74, 0x64, 0x91, 0xa6, 0x62, 0x6c, 0x61, 0x6b, 0x65, 0x33, 0xce, 0x00, 0x01, 0x00, 0x00,
    0x10, 0xc3, 0xc2]

/-- A serialisation that knows these capabilities only. -/
def sampleSerialization : Serialization where
  toVec caps :=
    if caps = sampleCaps then .ok sampleBytes
    else if caps = otherCaps then .ok otherBytes
    else .error "unknown capabilities"
  fromSlice bytes :=
    if bytes = sampleBytes then .ok sampleCaps
    else if bytes = otherBytes then .ok otherCaps
    else .error "unknown bytes"
  utf8Error _ := "invalid utf-8"

variable {caps : Capabilities}

theorem toVec_sample {encoded : Bytes} (written : sampleSerialization.toVec caps = .ok encoded) :
    (caps = sampleCaps ∧ encoded = sampleBytes) ∨ (caps = otherCaps ∧ encoded = otherBytes) := by
  simp only [sampleSerialization] at written
  split at written
  · rename_i known
    cases written
    exact .inl ⟨known, rfl⟩
  split at written
  · rename_i known
    cases written
    exact .inr ⟨known, rfl⟩
  · contradiction

theorem fromSlice_sample (read : sampleSerialization.fromSlice bytes = .ok caps) :
    bytes.length = 33 := by
  simp only [sampleSerialization] at read
  split at read
  · rename_i known
    rw [known]
    rfl
  split at read
  · rename_i known
    rw [known]
    rfl
  · contradiction

theorem sampleSerialization_roundTrips : sampleSerialization.RoundTrips := by
  intro caps encoded written
  rcases toVec_sample written with ⟨rfl, rfl⟩ | ⟨rfl, rfl⟩ <;> rfl

theorem sampleSerialization_compact : sampleSerialization.Compact := by
  intro caps encoded bytes written read
  rw [fromSlice_sample read]
  rcases toVec_sample written with ⟨-, rfl⟩ | ⟨-, rfl⟩ <;> exact Nat.le_refl 33

end Sample

section Confinement

def lengthAt (bytes : Bytes) (place : ℕ) : ℕ := Bytes.leValue (bytes.slice place (place + 4))

/-- The bytes that so many entries of a batch take, by their own lengths. -/
def entriesLength : ℕ → Bytes → ℕ
  | 0, _ => 0
  | count + 1, bytes =>
    let entry := 8 + lengthAt bytes 4
    entry + entriesLength count (bytes.drop entry)

/-- The length of a payload by the counts and lengths it holds itself. Capabilities hold none:
their length is the declared one. -/
def layoutLength (declared : ℕ) : FrameType → Bytes → ℕ
  | .hello, _ => 4
  | .capabilities, _ => declared
  | .plan, bytes => 20 + lengthAt bytes 16
  | .«have», bytes | .want, bytes | .ack, bytes => 4 + 4 * lengthAt bytes 0
  | .chunk, bytes | .error, bytes => 8 + lengthAt bytes 4
  | .chunkBatch, bytes => 4 + entriesLength (lengthAt bytes 0) (bytes.drop 4)
  | .shard, bytes => 12 + lengthAt bytes 8
  | .nack, bytes =>
    let reason := 4 + 4 * lengthAt bytes 0
    reason + 4 + lengthAt bytes reason
  | .verify, _ => 32
  | .chunkVerify, bytes =>
    let proof := 40 + 32 * lengthAt bytes 36
    proof + 8 + lengthAt bytes (proof + 4)
  | .accept, _ | .done, _ | .cancel, _ | .pause, _ => 0

variable {length : ℕ} (front back : Bytes) {place : ℕ}

theorem lengthAt_append (fits : length < 256 ^ 4) (behind : front.length = place) :
    lengthAt (front ++ (putLength length ++ back)) place = length := by
  rw [lengthAt, Bytes.slice_append_mid front _ back behind.symm
    (by rw [length_putLength, behind]), putLength_eq fits, Bytes.leValue_leBytes 4 length fits]

theorem lengthAt_block (fits : bytes.length < 256 ^ 4) (behind : front.length = place) :
    lengthAt (front ++ (putBlock bytes ++ back)) place = bytes.length := by
  rw [putBlock, append_assoc]
  exact lengthAt_append front _ fits behind

theorem lengthAt_putLength (back : Bytes) (fits : length < 256 ^ 4) :
    lengthAt (putLength length ++ back) 0 = length :=
  lengthAt_append [] back fits rfl

theorem lengthAt_putChunkIds {chunkIds : List UInt32} (back : Bytes)
    (fits : chunkIds.length < 256 ^ 4) :
    lengthAt (putChunkIds chunkIds ++ back) 0 = chunkIds.length := by
  rw [putChunkIds, append_assoc]
  exact lengthAt_putLength _ fits

theorem entriesLength_append {chunks : List (UInt32 × Bytes)} (back : Bytes)
    (fit : ∀ entry ∈ chunks, entry.2.length < 256 ^ 4) :
    entriesLength chunks.length (chunks.flatMap putEntry ++ back) =
      (chunks.flatMap putEntry).length := by
  induction chunks with
  | nil => rfl
  | cons entry chunks ih =>
    obtain ⟨fits, fit⟩ := List.forall_mem_cons.mp fit
    have entryLength : 8 + lengthAt (putEntry entry ++ (chunks.flatMap putEntry ++ back)) 4 =
        (putEntry entry).length := by
      rw [length_putEntry, putEntry, append_assoc, lengthAt_block _ _ fits (length_putU32Le _)]
    rw [List.length_cons, entriesLength, List.flatMap_cons, append_assoc, entryLength,
      List.drop_left, ih fit, length_append]

variable {wire} in
theorem Written.layoutLength_eq {type : FrameType} {frame : Frame} {used : Bytes}
    (written : Written wire length type frame used) (rest : Bytes) :
    layoutLength length type (used ++ rest) = used.length := by
  cases written with
  | hello => exact (length_putU32Le _).symm
  | capabilities declared => exact declared.symm
  | accept | done | cancel | pause => rfl
  | verify merkleRoot => exact merkleRoot.length_toList.symm
  | «have» fits | want fits | ack fits =>
    rw [layoutLength, lengthAt_putChunkIds rest fits, length_putChunkIds]
  | chunk _ fits | error _ fits =>
    rw [layoutLength, append_assoc, lengthAt_block _ _ fits (length_putU32Le _),
      length_append, length_putU32Le, length_putBlock]
    omega
  | plan totalSize numChunks chunkSize fits =>
    have front : (putU64Le totalSize ++ (putU32Le numChunks ++ putU32Le chunkSize)).length = 16 :=
      by simp [length_putU64Le, length_putU32Le]
    have metadataLength := lengthAt_block _ rest fits front
    simp only [append_assoc] at metadataLength
    simp only [layoutLength, append_assoc, metadataLength, length_append,
      length_putU64Le, length_putU32Le, length_putBlock]
    omega
  | chunkBatch fits fit =>
    rw [layoutLength, append_assoc, lengthAt_putLength _ fits,
      drop_left' (length_putLength _), entriesLength_append rest fit, length_append,
      length_putLength]
  | shard chunkId shardIdx totalShards fits =>
    have front : (putU32Le chunkId ++ (putU16Le shardIdx ++ putU16Le totalShards)).length = 8 :=
      by simp [length_putU32Le, length_putU16Le]
    have dataLength := lengthAt_block _ rest fits front
    simp only [append_assoc] at dataLength
    simp only [layoutLength, append_assoc, dataLength, length_append,
      length_putU32Le, length_putU16Le, length_putBlock]
    omega
  | nack idsFit reasonFits =>
    simp only [layoutLength, append_assoc]
    rw [lengthAt_putChunkIds _ idsFit, ← length_putChunkIds,
      lengthAt_block _ rest reasonFits rfl, length_append, length_putBlock]
    omega
  | @chunkVerify chunkId chunkHash siblings leafIndex directions siblingsFit directionsFit =>
    have front : (putU32Le chunkId ++ chunkHash.toList).length = 36 := by
      simp [length_putU32Le]
    have proof : (putU32Le chunkId ++ (chunkHash.toList ++ ((putLength siblings.length ++
        siblings.flatMap Vector.toList) ++ putU32Le leafIndex))).length =
        40 + 32 * siblings.length + 4 := by
      simp only [length_append, length_putU32Le, Vector.length_toList, length_putLength,
        length_siblings]
      omega
    have siblingsLength := lengthAt_append _ (siblings.flatMap Vector.toList ++
      (putU32Le leafIndex ++ (putBlock directions ++ rest))) siblingsFit front
    have directionsLength := lengthAt_block _ rest directionsFit proof
    simp only [append_assoc] at siblingsLength directionsLength
    simp only [layoutLength, append_assoc, siblingsLength, directionsLength,
      length_append, length_putU32Le, Vector.length_toList, length_putLength,
      length_putBlock, length_siblings]
    omega

def declaredLength (buf : Bytes) : ℕ := lengthAt buf 4

/-- The length of the payload behind the header in a buffer, by its own counts and lengths. -/
def describedLength (buf : Bytes) : ℕ :=
  (FrameType.ofCode (buf.getD 0 0)).elim 0 fun type =>
    layoutLength (declaredLength buf) type (buf.drop FrameHeader.size)

theorem declaredLength_encode (header : FrameHeader) (tail : Bytes) :
    declaredLength (header.encode ++ tail) = header.length.toNat := by
  have written : putLength header.length.toNat = putU32Le header.length := by
    rw [putLength, UInt32.ofNat_toNat]
  have front : (header.frameType :: header.flags :: putU16Le header.streamId).length = 4 := rfl
  have declared := lengthAt_append _ tail header.length.toNat_lt front
  rw [written] at declared
  simpa [declaredLength, FrameHeader.encode] using declared

/-- A decoded frame is confined to the length its header declares exactly if the payload
describes the same length. -/
theorem confined_iff_described (buf rest : Bytes) (frame : Frame)
    (decoded : decode wire buf = .ok (some frame, rest)) :
    (buf.length = FrameHeader.size + declaredLength buf + rest.length ∧
      ∀ other : Bytes, other.take (FrameHeader.size + declaredLength buf) =
          buf.take (FrameHeader.size + declaredLength buf) →
        ∃ left, decode wire other = .ok (some frame, left)) ↔
      describedLength buf = declaredLength buf := by
  obtain ⟨header, type, used, known, small, enough, written, rfl⟩ :=
    (decode_eq_some_iff wire).mp decoded
  have described : describedLength (header.encode ++ (used ++ rest)) = used.length := by
    rw [describedLength, declaredLength_encode, drop_left' header.length_encode]
    change (FrameType.ofCode header.frameType).elim _ _ = _
    rw [known]
    exact written.layoutLength_eq rest
  rw [described, declaredLength_encode, length_append, length_append, header.length_encode]
  constructor
  · rintro ⟨consumed, -⟩
    omega
  · intro same
    refine ⟨by omega, fun other agrees => ?_⟩
    have front : (header.encode ++ used).length = FrameHeader.size + header.length.toNat := by
      rw [length_append, header.length_encode, same]
    rw [← append_assoc, List.take_left' front] at agrees
    refine ⟨other.drop (FrameHeader.size + header.length.toNat), ?_⟩
    refine (decode_eq_some_iff wire).mpr ⟨header, type, used, known, small, ?_, written, ?_⟩
    · rw [length_append]
      omega
    · rw [← append_assoc, ← agrees, take_append_drop]

/-- A greeting that declares no payload takes its version from the bytes behind it: buffers
that agree on the declared bytes decode to different frames. -/
theorem hello_leaves_declared_length :
    let buf : Bytes := [1, 0, 0, 0, 0, 0, 0, 0, 7, 0, 0, 0]
    let other : Bytes := [1, 0, 0, 0, 0, 0, 0, 0, 8, 0, 0, 0]
    declaredLength buf = 0 ∧ other.take FrameHeader.size = buf.take FrameHeader.size ∧
      decode sampleSerialization buf = .ok (some (hello 7), []) ∧
      decode sampleSerialization other = .ok (some (hello 8), []) :=
  ⟨rfl, rfl, rfl, rfl⟩

/-- A frame with a payload of its own length, followed by another one. -/
theorem confined_iff_described_hello :
    let buf : Bytes := [1, 0, 0, 0, 4, 0, 0, 0, 7, 0, 0, 0, 0x42]
    decode sampleSerialization buf = .ok (some (hello 7), [0x42]) ∧
      (buf.length = FrameHeader.size + declaredLength buf + 1 ∧
        ∀ other : Bytes, other.take 12 = buf.take 12 →
          ∃ left, decode sampleSerialization other = .ok (some (hello 7), left)) :=
  ⟨rfl, (confined_iff_described sampleSerialization _ [0x42] (hello 7) rfl).mpr rfl⟩

end Confinement

section Streams
variable {wire}

/-- The header that `encode` writes for a payload of a length. -/
def header (frame : Frame) (length : ℕ) : FrameHeader :=
  ⟨frame.frameType.code, 0, 0, UInt32.ofNat length⟩

variable (wire) in
/-- The bytes that a frame is encoded in. -/
def Encoded (frame : Frame) (encoded : Bytes) : Prop :=
  ∃ payload, frame.payload wire = .ok payload ∧ payload.length ≤ maxPayloadSize ∧
    encoded = (frame.header payload.length).encode ++ payload

theorem length_behind_header (buf payload : Bytes) (header : FrameHeader) :
    (buf ++ header.encode ++ payload).length - (buf.length + FrameHeader.size) =
      payload.length := by
  rw [length_append, length_append, length_encode, Nat.add_sub_cancel_left]

theorem Encoded.encode_eq {frame : Frame} {encoded : Bytes}
    (isEncoded : Encoded wire frame encoded) (buf : Bytes) :
    frame.encode wire buf = .ok (buf ++ encoded) := by
  obtain ⟨payload, built, small, rfl⟩ := isEncoded
  have front : (buf ++ [frame.frameType.code, 0, 0, 0]).length =
      buf.length + FrameHeader.size - 4 := by
    simp [FrameHeader.size]
  have unpatched : buf ++ (FrameHeader.mk frame.frameType.code 0 0 0).encode ++ payload =
      (buf ++ [frame.frameType.code, 0, 0, 0]) ++ (putU32Le 0 ++ payload) := by
    simp [FrameHeader.encode, putU16Le, Bytes.leBytes]
  have behind : (buf ++ (FrameHeader.mk frame.frameType.code 0 0 0).encode).length =
      buf.length + FrameHeader.size := by
    rw [length_append, length_encode]
  simp only [encode, built, bind, Except.bind, length_behind_header, Nat.not_lt.mpr small, if_false,
    drop_left' behind]
  rw [unpatched, List.take_left' front]
  simp [header, FrameHeader.encode, putLength, putU16Le, Bytes.leBytes, pure, Except.pure]

theorem encoded_of_encode {frame : Frame} {buf written : Bytes}
    (encodes : frame.encode wire buf = .ok written) : ∃ encoded, Encoded wire frame encoded := by
  cases built : frame.payload wire with
  | error failure =>
    simp only [encode, built, bind, Except.bind] at encodes
    contradiction
  | ok payload =>
    simp only [encode, built, bind, Except.bind, length_behind_header] at encodes
    split at encodes
    · contradiction
    · rename_i small
      exact ⟨_, payload, built, Nat.le_of_not_lt small, rfl⟩

theorem Encoded.decode_append (roundTrips : wire.RoundTrips) {frame : Frame} {encoded : Bytes}
    (isEncoded : Encoded wire frame encoded) (rest : Bytes) :
    decode wire (encoded ++ rest) = .ok (some frame, rest) := by
  obtain ⟨payload, built, small, rfl⟩ := isEncoded
  have fits : payload.length < 256 ^ 4 := Nat.lt_of_le_of_lt small (by decide)
  have declared : (frame.header payload.length).length.toNat = payload.length :=
    UInt32.toNat_ofNat_of_lt' fits
  refine (decode_eq_some_iff wire).mpr ⟨frame.header payload.length, frame.frameType, payload,
    FrameType.ofCode_code _, ?_, ?_, ?_, append_assoc ..⟩
  · rwa [declared]
  · rw [declared, length_append]
    exact Nat.le_add_right ..
  · rw [declared]
    exact written_payload roundTrips built fits

theorem Encoded.length_pos {frame : Frame} {encoded : Bytes}
    (isEncoded : Encoded wire frame encoded) : 0 < encoded.length := by
  obtain ⟨payload, -, -, rfl⟩ := isEncoded
  rw [length_append, length_encode]
  exact Nat.lt_add_right _ (by decide)

theorem Encoded.decode_part {frame : Frame} {part missing : Bytes}
    (isEncoded : Encoded wire frame (part ++ missing)) (more : missing ≠ []) :
    decode wire part = .ok (none, part) := by
  obtain ⟨payload, -, small, whole⟩ := isEncoded
  have fits : payload.length < 256 ^ 4 := Nat.lt_of_le_of_lt small (by decide)
  have declared : (frame.header payload.length).length.toNat = payload.length :=
    UInt32.toNat_ofNat_of_lt' fits
  by_cases short : part.length < FrameHeader.size
  · rw [decode, if_pos short]
  · obtain ⟨tail, rfl, rfl⟩ : ∃ tail, part = (frame.header payload.length).encode ++ tail ∧
        payload = tail ++ missing := by
      rcases List.append_eq_append_iff.mp whole with ⟨left, header, rest⟩ | behind
      · have := congrArg List.length header
        rw [length_encode, length_append] at this
        obtain rfl := List.eq_nil_of_length_eq_zero (l := left) (by omega)
        exact ⟨[], by rw [append_nil] at header ⊢; exact header.symm, rest.symm⟩
      · exact behind
    rw [decode_header, declared, if_neg (Nat.not_lt.mpr small), if_pos]
    rw [length_append]
    exact Nat.lt_add_of_pos_right (List.length_pos_of_ne_nil more)

theorem Encoded.length_le (compact : wire.Compact) {frame : Frame} {encoded : Bytes}
    (isEncoded : Encoded wire frame encoded) {buf rest : Bytes}
    (decoded : decode wire buf = .ok (some frame, rest)) : encoded.length ≤ buf.length := by
  obtain ⟨payload, built, -, rfl⟩ := isEncoded
  obtain ⟨header, type, used, -, -, -, written, rfl⟩ := (decode_eq_some_iff wire).mp decoded
  have := written.length_payload_le compact built
  rw [length_append, length_append, length_append, length_encode, length_encode]
  omega

theorem decode_none_rest {buf rest : Bytes} (decoded : decode wire buf = .ok (none, rest)) :
    rest = buf := by
  by_cases short : buf.length < FrameHeader.size
  · rw [decode, if_pos short] at decoded
    cases decoded
    rfl
  obtain ⟨header, tail, rfl⟩ := exists_encode (Nat.le_of_not_lt short)
  rw [decode_header] at decoded
  split at decoded
  · cases decoded
  split at decoded
  · cases decoded
    rfl
  · obtain ⟨read, -, ⟨⟩⟩ := Outcome.bind_eq_ok_iff.mp decoded

theorem decode_shrinks {buf rest : Bytes} {frame : Frame}
    (decoded : decode wire buf = .ok (some frame, rest)) : rest.length < buf.length := by
  obtain ⟨header, type, used, -, -, -, -, rfl⟩ := (decode_eq_some_iff wire).mp decoded
  rw [length_append, length_append, header.length_encode, FrameHeader.size]
  omega

variable (wire)

def encodeAll (frames : List Frame) (buf : Bytes) : Except Error Bytes :=
  frames.foldlM (fun buf frame => frame.encode wire buf) buf

def decodeAvailable (buf : Bytes) : Outcome Error (List Frame × Bytes) :=
  match _ : decode wire buf with
  | .ok (some frame, rest) =>
    (decodeAvailable rest).bind fun others => .ok (frame :: others.1, others.2)
  | .ok (none, rest) => .ok ([], rest)
  | .error failure => .error failure
  | .panic => .panic
termination_by buf.length
decreasing_by exact decode_shrinks ‹_›

/-- Receive a stream in pieces, decoding what there is after each of them. -/
def receive (buf : Bytes) : List Bytes → Outcome Error (List Frame × Bytes)
  | [] => .ok ([], buf)
  | piece :: pieces =>
    (decodeAvailable wire (buf ++ piece)).bind fun decoded =>
      (receive decoded.2 pieces).bind fun later => .ok (decoded.1 ++ later.1, later.2)

variable {wire} {frames : List Frame}

theorem decodeAvailable_of_some {buf rest : Bytes} {frame : Frame}
    (decoded : decode wire buf = .ok (some frame, rest)) :
    decodeAvailable wire buf = (decodeAvailable wire rest).bind fun others =>
      .ok (frame :: others.1, others.2) := by
  rw [decodeAvailable]
  split <;> rename_i other <;> cases decoded.symm.trans other
  rfl

theorem decodeAvailable_of_none {buf : Bytes} (waiting : decode wire buf = .ok (none, buf)) :
    decodeAvailable wire buf = .ok ([], buf) := by
  rw [decodeAvailable]
  split <;> rename_i other <;> cases waiting.symm.trans other
  rfl

section
variable (roundTrips : wire.RoundTrips) {frames : List Frame} {encodings : List Bytes}
  (encoded : List.Forall₂ (Encoded wire) frames encodings)
include roundTrips encoded

/-- What is decoded of a stream of frames so far: the first of them, and part of the next. -/
theorem decodeAvailable_encoded {buf later : Bytes} (stream : buf ++ later = encodings.flatten) :
    ∃ count part, decodeAvailable wire buf = .ok (frames.take count, part) ∧
      part ++ later = (encodings.drop count).flatten ∧ decode wire part = .ok (none, part) := by
  induction encoded generalizing buf with
  | nil =>
    obtain ⟨rfl, rfl⟩ := List.append_eq_nil_iff.mp stream
    have waiting : decode wire [] = .ok (none, []) := rfl
    exact ⟨0, [], decodeAvailable_of_none waiting, rfl, waiting⟩
  | @cons frame encoding frames encodings first others ih =>
    -- Either the whole frame has arrived, or part of it is still missing.
    have arrived {behind : Bytes} (split : buf = encoding ++ behind)
        (following : behind ++ later = encodings.flatten) :
        ∃ count part, decodeAvailable wire buf = .ok ((frame :: frames).take count, part) ∧
          part ++ later = ((encoding :: encodings).drop count).flatten ∧
          decode wire part = .ok (none, part) := by
      obtain ⟨count, part, decoded, rest, waiting⟩ := ih following
      refine ⟨count + 1, part, ?_, rest, waiting⟩
      rw [split, decodeAvailable_of_some (first.decode_append roundTrips behind), decoded]
      rfl
    rw [flatten_cons] at stream
    rcases List.append_eq_append_iff.mp stream with ⟨missing, whole, rest⟩ | ⟨behind, split, rest⟩
    · cases missing with
      | nil =>
        rw [append_nil] at whole
        have exactly : buf = encoding ++ [] := by rw [whole, append_nil]
        exact arrived exactly rest
      | cons byte missing =>
        rw [whole] at first
        have waiting := first.decode_part (List.cons_ne_nil _ _)
        refine ⟨0, buf, decodeAvailable_of_none waiting, ?_, waiting⟩
        rw [List.drop_zero, flatten_cons, ← stream]
    · exact arrived split rest.symm

theorem receive_rest {buf : Bytes} {pieces : List Bytes}
    (stream : buf ++ pieces.flatten = encodings.flatten)
    (waiting : decode wire buf = .ok (none, buf)) :
    receive wire buf pieces = .ok (frames, []) := by
  induction pieces generalizing buf frames encodings with
  | nil =>
    rw [flatten_nil, append_nil] at stream
    subst stream
    cases encoded with
    | nil => rfl
    | cons first others =>
      rw [flatten_cons, first.decode_append roundTrips] at waiting
      cases waiting
  | cons piece pieces ih =>
    rw [flatten_cons, ← append_assoc] at stream
    obtain ⟨count, part, decoded, rest, waits⟩ :=
      decodeAvailable_encoded roundTrips encoded stream
    rw [receive, decoded, Outcome.ok_bind,
      ih (List.forall₂_drop count encoded) rest waits, Outcome.ok_bind,
      take_append_drop]

end

theorem exists_encodings (small : ∀ frame ∈ frames, ∃ encoded, Encoded wire frame encoded) :
    ∃ encodings, List.Forall₂ (Encoded wire) frames encodings := by
  induction frames with
  | nil => exact ⟨[], .nil⟩
  | cons frame frames ih =>
    obtain ⟨⟨encoding, first⟩, others⟩ := List.forall_mem_cons.mp small
    obtain ⟨encodings, encoded⟩ := ih others
    exact ⟨encoding :: encodings, .cons first encoded⟩

theorem encodeAll_eq {encodings : List Bytes}
    (encoded : List.Forall₂ (Encoded wire) frames encodings) (buf : Bytes) :
    encodeAll wire frames buf = .ok (buf ++ encodings.flatten) := by
  induction encoded generalizing buf with
  | nil =>
    rw [flatten_nil, append_nil]
    rfl
  | @cons frame encoding frames encodings first others ih =>
    rw [flatten_cons, ← append_assoc, ← ih, encodeAll, List.foldlM_cons, first.encode_eq]
    rfl

/-- Frames whose payloads are short enough are encoded, and the stream gives them back in
order, with nothing left over, in whatever pieces it arrives. -/
theorem receive_encoded (wire : Serialization) (roundTrips : wire.RoundTrips)
    (frames : List Frame)
    (small : ∀ frame ∈ frames, ∃ payload, frame.payload wire = .ok payload ∧
      payload.length ≤ maxPayloadSize) :
    ∃ stream, encodeAll wire frames [] = .ok stream ∧
      ∀ pieces : List Bytes, pieces.flatten = stream →
        receive wire [] pieces = .ok (frames, []) := by
  obtain ⟨encodings, encoded⟩ := exists_encodings fun frame member =>
    have ⟨payload, built, fits⟩ := small frame member
    show ∃ encoded, Encoded wire frame encoded from ⟨_, payload, built, fits, rfl⟩
  exact ⟨encodings.flatten, encodeAll_eq encoded [], fun pieces arrives =>
    receive_rest roundTrips encoded arrives rfl⟩

/-- Four frames, the stream cut within the header of the first and within the payload of the
last one. -/
theorem receive_encoded_cut :
    let frames := [capabilities sampleCaps, nack [7, 300] "no", pause, chunk 9 [1, 2, 3]]
    ∃ stream, encodeAll sampleSerialization frames [] = .ok stream ∧
      receive sampleSerialization []
          [stream.take 3, (stream.drop 3).take 80, (stream.drop 3).drop 80] =
        .ok (frames, []) := by
  intro frames
  have small : ∀ frame ∈ frames, ∃ payload, frame.payload sampleSerialization = .ok payload ∧
      payload.length ≤ maxPayloadSize := by
    simp only [frames, List.forall_mem_cons]
    exact ⟨⟨_, rfl, by decide⟩, ⟨_, rfl, by decide⟩, ⟨_, rfl, by decide⟩, ⟨_, rfl, by decide⟩,
      fun _ member => absurd member List.not_mem_nil⟩
  obtain ⟨stream, encoded, received⟩ := receive_encoded sampleSerialization
    sampleSerialization_roundTrips frames small
  refine ⟨stream, encoded, received _ ?_⟩
  rw [flatten_cons, flatten_cons, flatten_cons, flatten_nil, append_nil,
    take_append_drop, take_append_drop]

end Streams

/-- The result of `encode` and what it leaves in the buffer. -/
def encodeInto (frame : Frame) (buf : Bytes) : Except Error Unit × Bytes :=
  let payloadStart := buf.length + FrameHeader.size
  let buf := buf ++ (FrameHeader.mk frame.frameType.code 0 0 0).encode
  match frame.payload wire with
  | .error failure => (.error failure, buf)
  | .ok payload =>
    let buf := buf ++ payload
    let payloadLen := buf.length - payloadStart
    if payloadLen > maxPayloadSize then
      (.error (.protocol s!"Payload too large: {payloadLen} bytes"), buf)
    else (.ok (), buf.take (payloadStart - 4) ++ putLength payloadLen ++ buf.drop payloadStart)

variable {wire} in
theorem encode_eq_encodeInto (frame : Frame) (buf : Bytes) :
    frame.encode wire buf = (frame.encodeInto wire buf).1.map fun _ =>
      (frame.encodeInto wire buf).2 := by
  unfold encode encodeInto
  cases frame.payload wire with
  | error failure => rfl
  | ok payload =>
    simp only [bind, Except.bind]
    split <;> rfl

/-- **Failed encoding.** A failure leaves the buffer as it was only where there is none: where
the payload is serialised and at most 16 MiB long. -/
theorem failed_encode_restores_iff (frame : Frame) (buf : Bytes) :
    (∀ failure, (frame.encodeInto wire buf).1 = .error failure →
      (frame.encodeInto wire buf).2 = buf) ↔
      ∃ payload, frame.payload wire = .ok payload ∧ payload.length ≤ maxPayloadSize := by
  have longer (payload : Bytes) :
      buf ++ (FrameHeader.mk frame.frameType.code 0 0 0).encode ++ payload ≠ buf := by
    intro same
    have length := congrArg List.length same
    simp only [length_append, length_encode, FrameHeader.size] at length
    omega
  unfold encodeInto
  cases frame.payload wire with
  | error failure =>
    have changed := longer []
    rw [append_nil] at changed
    simp [changed]
  | ok payload =>
    dsimp only
    rw [length_behind_header]
    by_cases large : payload.length > maxPayloadSize
    · rw [if_pos large]
      refine iff_of_false (fun restores => longer payload (restores _ rfl)) ?_
      rintro ⟨_, ⟨⟩, small⟩
      omega
    · rw [if_neg large]
      exact iff_of_true (by simp) ⟨payload, rfl, not_lt.mp large⟩

/-- A chunk of 16 MiB is refused, and stays behind its header with identifier and length. -/
theorem failed_encode_leaves_payload :
    let data := List.replicate maxPayloadSize 0
    (chunk 7 data).encodeInto sampleSerialization [] =
      (.error (.protocol "Payload too large: 16777224 bytes"),
        [17, 0, 0, 0, 0, 0, 0, 0, 7, 0, 0, 0, 0, 0, 0, 1] ++ data) := by
  have general (data : Bytes) (large : data.length = maxPayloadSize) :
      (chunk 7 data).encodeInto sampleSerialization [] =
        (.error (.protocol "Payload too large: 16777224 bytes"),
          [17, 0, 0, 0, 0, 0, 0, 0, 7, 0, 0, 0, 0, 0, 0, 1] ++ data) := by
    have block : payload sampleSerialization (chunk 7 data) =
        .ok ([7, 0, 0, 0, 0, 0, 0, 1] ++ data) := by
      rw [payload, putBlock, large]
      rfl
    have size : ([7, 0, 0, 0, 0, 0, 0, 1] ++ data).length = 16777224 := by
      rw [length_append, large]
      rfl
    have header : (FrameHeader.mk (chunk 7 data).frameType.code 0 0 0).encode =
        [17, 0, 0, 0, 0, 0, 0, 0] := by
      change (FrameHeader.mk FrameType.chunk.code 0 0 0).encode = _
      decide
    simp only [encodeInto, block, length_behind_header, size]
    rw [if_pos (by decide), header]
    exact congrArg₂ Prod.mk (by decide) rfl
  exact general _ List.length_replicate

end Frame

end Warp.Net
