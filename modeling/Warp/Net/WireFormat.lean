import Warp.Net.Frame

/-! # The wire format

The bytes of every kind of frame as a relation (`Frame.Written`). Decoding accepts
exactly these, whatever follows them in the buffer (`Frame.accepts_decodePayload`,
`Frame.decode_eq_some_iff`), and encoding writes them
(`Frame.written_payload`).
-/

namespace Warp.Net

open ByteReader Bytes Outcome
open List (append_assoc append_nil length_append)

open ByteReader (Accepts)

theorem length_putU16Le (value : UInt16) : (putU16Le value).length = 2 := Bytes.length_leBytes ..

theorem length_putU32Le (value : UInt32) : (putU32Le value).length = 4 := Bytes.length_leBytes ..

theorem length_putU64Le (value : UInt64) : (putU64Le value).length = 8 := Bytes.length_leBytes ..

theorem length_putLength (length : ℕ) : (putLength length).length = 4 := Bytes.length_leBytes ..

theorem putLength_eq {length : ℕ} (fits : length < 256 ^ 4) :
    putLength length = Bytes.leBytes 4 length := by
  rw [putLength, putU32Le, UInt32.toNat_ofNat_of_lt' fits]

theorem putU16Le_ofNat {bytes : Bytes} (width : bytes.length = 2) :
    putU16Le (UInt16.ofNat (Bytes.leValue bytes)) = bytes := by
  have fits := leValue_lt bytes
  rw [width] at fits
  rw [putU16Le, UInt16.toNat_ofNat_of_lt' fits, ← width, leBytes_leValue]

theorem putU32Le_ofNat {bytes : Bytes} (width : bytes.length = 4) :
    putU32Le (UInt32.ofNat (Bytes.leValue bytes)) = bytes := by
  have fits := leValue_lt bytes
  rw [width] at fits
  rw [putU32Le, UInt32.toNat_ofNat_of_lt' fits, ← width, leBytes_leValue]

theorem accepts_getU8 : Accepts getU8 fun value used => used = [value] := by
  apply (accepts_number_as UInt8.toNat_lt (fun _ => UInt8.ofNat_toNat)
    fun _ fits => UInt8.toNat_ofNat_of_lt' fits).congr
  intro value used
  simp [Bytes.leBytes]

theorem accepts_getU16Le : Accepts getU16Le fun value used => used = putU16Le value :=
  accepts_number_as UInt16.toNat_lt (fun _ => UInt16.ofNat_toNat)
    fun _ fits => UInt16.toNat_ofNat_of_lt' fits

theorem accepts_getU32Le : Accepts getU32Le fun value used => used = putU32Le value :=
  accepts_number_as UInt32.toNat_lt (fun _ => UInt32.ofNat_toNat)
    fun _ fits => UInt32.toNat_ofNat_of_lt' fits

theorem accepts_getU64Le : Accepts getU64Le fun value used => used = putU64Le value :=
  accepts_number_as UInt64.toNat_lt (fun _ => UInt64.ofNat_toNat)
    fun _ fits => UInt64.toNat_ofNat_of_lt' fits

theorem accepts_getHash : Accepts getHash fun value used => used = value.toList := by
  apply ((accepts_take 32).map (Bytes.toVector 32)).congr
  intro value used
  constructor
  · rintro ⟨_, ⟨length, rfl⟩, rfl⟩
    rw [toList_toVector length]
  · rintro rfl
    exact ⟨_, ⟨value.length_toList, rfl⟩, (toVector_toList value).symm⟩

theorem fromUtf8_eq_ok_iff (wire : Serialization) (bytes : Bytes) (text : String) :
    fromUtf8 wire bytes = .ok text ↔ bytes = asBytes text := by
  have same : bytes = asBytes text ↔ ⟨bytes.toArray⟩ = text.toByteArray := by
    rw [ByteArray.ext_iff, asBytes, ← Array.toList_inj]
  rw [same, fromUtf8, String.fromUTF8?]
  split
  · rename_i found read
    split at read
    · cases read
      rw [Except.ok.injEq, ← String.toByteArray_inj]
      rfl
    · contradiction
  · rename_i read
    split at read
    · contradiction
    · rename_i invalid
      refine ⟨fun failed => by contradiction, fun written => absurd ?_ invalid⟩
      rw [written]
      exact text.isValidUTF8

variable {frame : Frame} (header : FrameHeader)

namespace Frame

variable (wire : Serialization)

/-- The wire format: the bytes that are a payload of a frame, for the frame type and the
length that the header declares. Only capabilities may be written in more than one way. -/
inductive Written (length : ℕ) : FrameType → Frame → Bytes → Prop
  | hello (version : UInt32) : Written length .hello (.hello version) (putU32Le version)
  | capabilities {caps : Capabilities} {payload : Bytes} (declared : payload.length = length)
      (read : wire.fromSlice payload = .ok caps) :
      Written length .capabilities (.capabilities caps) payload
  | plan (totalSize : UInt64) (numChunks chunkSize : UInt32) {metadata : Bytes}
      (fits : metadata.length < 256 ^ 4) :
      Written length .plan (.plan totalSize numChunks chunkSize metadata)
        (putU64Le totalSize ++ (putU32Le numChunks ++ (putU32Le chunkSize ++ putBlock metadata)))
  | accept : Written length .accept .accept []
  | «have» {chunkIds : List UInt32} (fits : chunkIds.length < 256 ^ 4) :
      Written length .«have» (.«have» chunkIds) (putChunkIds chunkIds)
  | want {chunkIds : List UInt32} (fits : chunkIds.length < 256 ^ 4) :
      Written length .want (.want chunkIds) (putChunkIds chunkIds)
  | chunk (chunkId : UInt32) {data : Bytes} (fits : data.length < 256 ^ 4) :
      Written length .chunk (.chunk chunkId data) (putU32Le chunkId ++ putBlock data)
  | chunkBatch {chunks : List (UInt32 × Bytes)} (fits : chunks.length < 256 ^ 4)
      (fit : ∀ entry ∈ chunks, entry.2.length < 256 ^ 4) :
      Written length .chunkBatch (.chunkBatch chunks)
        (putLength chunks.length ++ chunks.flatMap putEntry)
  | shard (chunkId : UInt32) (shardIdx totalShards : UInt16) {data : Bytes}
      (fits : data.length < 256 ^ 4) :
      Written length .shard (.shard chunkId shardIdx totalShards data)
        (putU32Le chunkId ++ (putU16Le shardIdx ++ (putU16Le totalShards ++ putBlock data)))
  | ack {chunkIds : List UInt32} (fits : chunkIds.length < 256 ^ 4) :
      Written length .ack (.ack chunkIds) (putChunkIds chunkIds)
  | nack {chunkIds : List UInt32} {reason : String} (idsFit : chunkIds.length < 256 ^ 4)
      (reasonFits : (asBytes reason).length < 256 ^ 4) :
      Written length .nack (.nack chunkIds reason)
        (putChunkIds chunkIds ++ putBlock (asBytes reason))
  | done : Written length .done .done []
  | verify (merkleRoot : Vector UInt8 32) :
      Written length .verify (.verify merkleRoot) merkleRoot.toList
  | chunkVerify (chunkId : UInt32) (chunkHash : Vector UInt8 32)
      {siblings : List (Vector UInt8 32)} (leafIndex : UInt32) {directions : Bytes}
      (siblingsFit : siblings.length < 256 ^ 4) (directionsFit : directions.length < 256 ^ 4) :
      Written length .chunkVerify (.chunkVerify chunkId chunkHash ⟨siblings, leafIndex, directions⟩)
        (putU32Le chunkId ++ (chunkHash.toList ++
          ((putLength siblings.length ++ siblings.flatMap Vector.toList) ++
            (putU32Le leafIndex ++ putBlock directions))))
  | error (code : UInt32) {message : String} (fits : (asBytes message).length < 256 ^ 4) :
      Written length .error (.error code message) (putU32Le code ++ putBlock (asBytes message))
  | cancel : Written length .cancel .cancel []
  | pause : Written length .pause .pause []

theorem length_putBlock (bytes : Bytes) : (putBlock bytes).length = 4 + bytes.length := by
  rw [putBlock, length_append, length_putLength]

theorem length_putChunkIds (chunkIds : List UInt32) :
    (putChunkIds chunkIds).length = 4 + 4 * chunkIds.length := by
  rw [putChunkIds, length_append, length_putLength, length_flatMap length_putU32Le]

theorem length_siblings (siblings : List (Vector UInt8 32)) :
    (siblings.flatMap Vector.toList).length = 32 * siblings.length :=
  length_flatMap (fun hash => hash.length_toList) siblings

theorem length_putEntry (entry : UInt32 × Bytes) :
    (putEntry entry).length = 8 + entry.2.length := by
  rw [putEntry, length_append, length_putU32Le, length_putBlock]
  omega

def fixedSize : FrameType → ℕ
  | .hello | .«have» | .want | .ack | .chunkBatch => 4
  | .chunk | .error | .nack => 8
  | .shard => 12
  | .plan => 20
  | .verify => 32
  | .chunkVerify => 48
  | .capabilities | .accept | .done | .cancel | .pause => 0

variable {wire} in
variable {type : FrameType}

theorem Written.fixedSize_le {length : ℕ} {used : Bytes}
    (written : Written wire length type frame used) : fixedSize type ≤ used.length := by
  cases written <;>
    simp only [fixedSize, length_append, length_putU16Le, length_putU32Le, length_putU64Le,
      length_putLength, length_putBlock, length_putChunkIds, Vector.length_toList] <;>
    omega

variable (length : ℕ)

theorem accepts_block (failure : Error) :
    Accepts (.block 4 failure) fun bytes used =>
      bytes.length < 256 ^ 4 ∧ used = putBlock bytes := by
  apply (ByteReader.accepts_block 4 failure).congr
  intro bytes used
  refine and_congr_right fun fits => ?_
  rw [putBlock, putLength_eq fits]

theorem accepts_counted {Value : Type} {reader : ByteReader Error Value}
    {write : Value → Bytes} {fits : Value → Prop}
    (accepts : Accepts reader fun value used => fits value ∧ used = write value) :
    Accepts (.counted 4 reader) fun values used =>
      (values.length < 256 ^ 4 ∧ ∀ value ∈ values, fits value) ∧
        used = putLength values.length ++ values.flatMap write := by
  apply (accepts.counted 4).congr
  intro values used
  refine and_congr_right fun fit => ?_
  rw [putLength_eq fit.1]

theorem accepts_getChunkIds (name : String) :
    Accepts (getChunkIds name) fun chunkIds used =>
      chunkIds.length < 256 ^ 4 ∧ used = putChunkIds chunkIds := by
  have one : Accepts (.checked 4 (.protocol s!"Incomplete {name} chunk IDs") getU32Le)
      fun chunkId used => True ∧ used = putU32Le chunkId := by
    refine (accepts_getU32Le.checked (fun chunkId used written => ?_) _).congr fun _ _ =>
      by rw [true_and]
    rw [written, length_putU32Le]
  refine Accepts.checked ((accepts_counted one).congr fun chunkIds used => ?_) ?_ _
  · simp only [implies_true, and_true]
    rfl
  · rintro chunkIds _ ⟨-, rfl⟩
    rw [length_putChunkIds]
    exact Nat.le_add_right ..

theorem accepts_getEntry :
    Accepts getEntry fun entry used => entry.2.length < 256 ^ 4 ∧ used = putEntry entry := by
  refine Accepts.checked ((accepts_getU32Le.bind fun chunkId =>
    (accepts_block _).map (Prod.mk chunkId)).congr fun entry used => ?_) ?_ _
  · constructor
    · rintro ⟨chunkId, _, _, rfl, ⟨data, ⟨fits, rfl⟩, rfl⟩, rfl⟩
      exact ⟨fits, rfl⟩
    · rintro ⟨fits, rfl⟩
      exact ⟨_, _, _, rfl, ⟨_, ⟨fits, rfl⟩, rfl⟩, rfl⟩
  · rintro entry _ ⟨-, rfl⟩
    rw [length_putEntry]
    exact Nat.le_add_right ..

theorem accepts_text (failure : String → Error) (bytes : Bytes) :
    Accepts (.convert ((fromUtf8 wire bytes).mapError failure)) fun text used =>
      bytes = asBytes text ∧ used = [] := by
  apply (accepts_convert _).congr
  intro text used
  rw [mapError_eq_ok_iff, fromUtf8_eq_ok_iff]

theorem accepts_decodeHello : Accepts decodeHello (Written wire length .hello) := by
  refine Accepts.checked ((accepts_getU32Le.map hello).congr fun frame used => ?_)
    (fun _ _ written => written.fixedSize_le) _
  constructor
  · rintro ⟨version, rfl, rfl⟩
    exact .hello version
  · rintro ⟨⟩
    exact ⟨_, rfl, rfl⟩

theorem accepts_decodeCapabilities :
    Accepts (decodeCapabilities wire length) (Written wire length .capabilities) := by
  refine ((accepts_take length).bind fun payload =>
    (accepts_convert _).map capabilities).congr fun frame used => ?_
  constructor
  · rintro ⟨payload, _, _, ⟨declared, rfl⟩, ⟨caps, ⟨read, rfl⟩, rfl⟩, rfl⟩
    rw [append_nil]
    exact .capabilities declared (mapError_eq_ok_iff.mp read)
  · rintro ⟨⟩
    rename_i caps declared read
    exact ⟨_, _, [], ⟨declared, rfl⟩, ⟨caps, ⟨mapError_eq_ok_iff.mpr read, rfl⟩, rfl⟩,
      (append_nil _).symm⟩

theorem accepts_decodePlan : Accepts decodePlan (Written wire length .plan) := by
  refine Accepts.checked ((accepts_getU64Le.bind fun totalSize =>
    accepts_getU32Le.bind fun numChunks => accepts_getU32Le.bind fun chunkSize =>
      (accepts_block _).map (plan totalSize numChunks chunkSize)).congr fun frame used => ?_)
    (fun _ _ written => written.fixedSize_le) _
  constructor
  · rintro ⟨totalSize, _, _, rfl, ⟨numChunks, _, _, rfl, ⟨chunkSize, _, _, rfl,
      ⟨metadata, ⟨fits, rfl⟩, rfl⟩, rfl⟩, rfl⟩, rfl⟩
    exact .plan _ _ _ fits
  · rintro ⟨⟩
    rename_i fits
    exact ⟨_, _, _, rfl, ⟨_, _, _, rfl, ⟨_, _, _, rfl, ⟨_, ⟨fits, rfl⟩, rfl⟩, rfl⟩, rfl⟩, rfl⟩

variable {wire length} in
/-- A frame of chunk identifiers alone, with the name that its errors give it. -/
theorem accepts_chunkIdFrame {frameOf : List UInt32 → Frame}
    (writes : ∀ {chunkIds}, chunkIds.length < 256 ^ 4 →
      Written wire length type (frameOf chunkIds) (putChunkIds chunkIds))
    (reads : ∀ {frame used}, Written wire length type frame used → ∃ chunkIds : List UInt32,
      (chunkIds.length < 256 ^ 4 ∧ used = putChunkIds chunkIds) ∧ frame = frameOf chunkIds)
    (name : String) :
    Accepts (return frameOf (← getChunkIds name)) (Written wire length type) := by
  refine ((accepts_getChunkIds name).map frameOf).congr fun frame used => ⟨?_, reads⟩
  rintro ⟨chunkIds, ⟨fits, rfl⟩, rfl⟩
  exact writes fits

theorem accepts_decodeHave : Accepts decodeHave (Written wire length .«have») := by
  refine accepts_chunkIdFrame .«have» ?_ "HAVE"
  rintro _ _ ⟨⟩
  rename_i fits
  exact ⟨_, ⟨fits, rfl⟩, rfl⟩

theorem accepts_decodeWant : Accepts decodeWant (Written wire length .want) := by
  refine accepts_chunkIdFrame .want ?_ "WANT"
  rintro _ _ ⟨⟩
  rename_i fits
  exact ⟨_, ⟨fits, rfl⟩, rfl⟩

theorem accepts_decodeChunk : Accepts decodeChunk (Written wire length .chunk) := by
  refine Accepts.checked ((accepts_getU32Le.bind fun chunkId =>
    (accepts_block _).map (chunk chunkId)).congr fun frame used => ?_)
    (fun _ _ written => written.fixedSize_le) _
  constructor
  · rintro ⟨chunkId, _, _, rfl, ⟨data, ⟨fits, rfl⟩, rfl⟩, rfl⟩
    exact .chunk chunkId fits
  · rintro ⟨⟩
    rename_i fits
    exact ⟨_, _, _, rfl, ⟨_, ⟨fits, rfl⟩, rfl⟩, rfl⟩

theorem accepts_decodeChunkBatch : Accepts decodeChunkBatch (Written wire length .chunkBatch) := by
  refine Accepts.checked (((accepts_counted accepts_getEntry).map chunkBatch).congr
    fun frame used => ?_) (fun _ _ written => written.fixedSize_le) _
  constructor
  · rintro ⟨chunks, ⟨⟨fits, fit⟩, rfl⟩, rfl⟩
    exact .chunkBatch fits fit
  · rintro ⟨⟩
    rename_i fits fit
    exact ⟨_, ⟨⟨fits, fit⟩, rfl⟩, rfl⟩

theorem accepts_decodeShard : Accepts decodeShard (Written wire length .shard) := by
  refine Accepts.checked ((accepts_getU32Le.bind fun chunkId =>
    accepts_getU16Le.bind fun shardIdx => accepts_getU16Le.bind fun totalShards =>
      (accepts_block _).map (shard chunkId shardIdx totalShards)).congr fun frame used => ?_)
    (fun _ _ written => written.fixedSize_le) _
  constructor
  · rintro ⟨chunkId, _, _, rfl, ⟨shardIdx, _, _, rfl, ⟨totalShards, _, _, rfl,
      ⟨data, ⟨fits, rfl⟩, rfl⟩, rfl⟩, rfl⟩, rfl⟩
    exact .shard _ _ _ fits
  · rintro ⟨⟩
    rename_i fits
    exact ⟨_, _, _, rfl, ⟨_, _, _, rfl, ⟨_, _, _, rfl, ⟨_, ⟨fits, rfl⟩, rfl⟩, rfl⟩, rfl⟩, rfl⟩

theorem accepts_decodeAck : Accepts decodeAck (Written wire length .ack) := by
  refine accepts_chunkIdFrame .ack ?_ "ACK"
  rintro _ _ ⟨⟩
  rename_i fits
  exact ⟨_, ⟨fits, rfl⟩, rfl⟩

theorem accepts_decodeNack : Accepts (decodeNack wire) (Written wire length .nack) := by
  have reason := (accepts_block (.protocol "Incomplete NACK reason")).checked
    (fun bytes used written => by rw [written.2, length_putBlock]; exact Nat.le_add_right ..)
    (.protocol "Incomplete NACK reason")
  refine ((accepts_getChunkIds "NACK").bind fun chunkIds => reason.bind fun bytes =>
    (accepts_text wire _ bytes).map (nack chunkIds)).congr fun frame used => ?_
  constructor
  · rintro ⟨chunkIds, _, _, ⟨idsFit, rfl⟩, ⟨_, _, _, ⟨reasonFits, rfl⟩,
      ⟨text, ⟨rfl, rfl⟩, rfl⟩, rfl⟩, rfl⟩
    rw [append_nil]
    exact .nack idsFit reasonFits
  · rintro ⟨⟩
    rename_i chunkIds text idsFit reasonFits
    exact ⟨_, _, _, ⟨idsFit, rfl⟩, ⟨_, _, [], ⟨reasonFits, rfl⟩, ⟨_, ⟨rfl, rfl⟩, rfl⟩,
      (append_nil _).symm⟩, rfl⟩

theorem accepts_decodeVerify : Accepts decodeVerify (Written wire length .verify) := by
  refine Accepts.checked ((accepts_getHash.map verify).congr fun frame used => ?_)
    (fun _ _ written => written.fixedSize_le) _
  constructor
  · rintro ⟨merkleRoot, rfl, rfl⟩
    exact .verify merkleRoot
  · rintro ⟨⟩
    exact ⟨_, rfl, rfl⟩

theorem accepts_proof (chunkId : UInt32) (chunkHash : Vector UInt8 32)
    (siblings : List (Vector UInt8 32)) :
    Accepts (.checked 8 (.protocol "Incomplete CHUNK_VERIFY proof") do
      let leafIndex ← getU32Le
      let directions ← .block 4 (.protocol "Incomplete CHUNK_VERIFY directions")
      pure (chunkVerify chunkId chunkHash ⟨siblings, leafIndex, directions⟩))
      fun frame used => ∃ leafIndex directions, directions.length < 256 ^ 4 ∧
        frame = chunkVerify chunkId chunkHash ⟨siblings, leafIndex, directions⟩ ∧
        used = putU32Le leafIndex ++ putBlock directions := by
  refine Accepts.checked ((accepts_getU32Le.bind fun leafIndex => (accepts_block _).map
    fun directions => chunkVerify chunkId chunkHash ⟨siblings, leafIndex, directions⟩).congr
      fun frame used => ?_) ?_ _
  · constructor
    · rintro ⟨leafIndex, _, _, rfl, ⟨directions, ⟨fits, rfl⟩, rfl⟩, rfl⟩
      exact ⟨leafIndex, directions, fits, rfl, rfl⟩
    · rintro ⟨leafIndex, directions, fits, rfl, rfl⟩
      exact ⟨_, _, _, rfl, ⟨_, ⟨fits, rfl⟩, rfl⟩, rfl⟩
  · rintro _ _ ⟨leafIndex, directions, -, -, rfl⟩
    rw [length_append, length_putU32Le, length_putBlock]
    omega

theorem accepts_decodeChunkVerify :
    Accepts decodeChunkVerify (Written wire length .chunkVerify) := by
  have sibling : Accepts
      (.checked 32 (.protocol "Incomplete CHUNK_VERIFY siblings") getHash)
      fun hash used => True ∧ used = hash.toList := by
    refine (accepts_getHash.checked (fun hash used written => ?_) _).congr fun _ _ =>
      by rw [true_and]
    rw [written, Vector.length_toList]
  refine Accepts.checked ((accepts_getU32Le.bind fun chunkId => accepts_getHash.bind
    fun chunkHash => (accepts_counted sibling).bind fun siblings =>
      accepts_proof chunkId chunkHash siblings).congr fun frame used => ?_)
    (fun _ _ written => Nat.le_trans (by decide) written.fixedSize_le) _
  constructor
  · rintro ⟨chunkId, _, _, rfl, ⟨chunkHash, _, _, rfl, ⟨siblings, _, _, ⟨⟨siblingsFit, -⟩, rfl⟩,
      ⟨leafIndex, directions, directionsFit, rfl, rfl⟩, rfl⟩, rfl⟩, rfl⟩
    exact .chunkVerify _ _ _ siblingsFit directionsFit
  · rintro ⟨⟩
    rename_i siblingsFit directionsFit
    exact ⟨_, _, _, rfl, ⟨_, _, _, rfl, ⟨_, _, _, ⟨⟨siblingsFit, fun _ _ => trivial⟩, rfl⟩,
      ⟨_, _, directionsFit, rfl, rfl⟩, rfl⟩, rfl⟩, rfl⟩

theorem accepts_decodeError : Accepts (decodeError wire) (Written wire length .error) := by
  refine Accepts.checked ((accepts_getU32Le.bind fun code =>
    (accepts_block _).bind fun bytes => (accepts_text wire _ bytes).map (error code)).congr
      fun frame used => ?_) (fun _ _ written => written.fixedSize_le) _
  constructor
  · rintro ⟨code, _, _, rfl, ⟨_, _, _, ⟨fits, rfl⟩, ⟨text, ⟨rfl, rfl⟩, rfl⟩, rfl⟩, rfl⟩
    rw [append_nil]
    exact .error code fits
  · rintro ⟨⟩
    rename_i fits
    exact ⟨_, _, _, rfl, ⟨_, _, [], ⟨fits, rfl⟩, ⟨_, ⟨rfl, rfl⟩, rfl⟩, (append_nil _).symm⟩, rfl⟩

theorem length_le_flatMap_putEntry (chunks : List (UInt32 × Bytes)) :
    chunks.length ≤ (chunks.flatMap putEntry).length := by
  induction chunks with
  | nil => exact Nat.le_refl _
  | cons entry chunks ih =>
    rw [List.length_cons, List.flatMap_cons, length_append, length_putEntry]
    omega

theorem length_entry_le {chunks : List (UInt32 × Bytes)} {entry : UInt32 × Bytes}
    (member : entry ∈ chunks) : entry.2.length ≤ (chunks.flatMap putEntry).length := by
  have part : (putEntry entry).length ≤ (chunks.flatMap putEntry).length :=
    (List.sublist_flatten_of_mem (List.mem_map_of_mem member)).length_le
  rw [length_putEntry] at part
  omega

variable {wire} in
theorem written_payload (roundTrips : wire.RoundTrips) {payload : Bytes}
    (built : frame.payload wire = .ok payload) (small : payload.length < 256 ^ 4) :
    Written wire payload.length frame.frameType frame payload := by
  cases frame with
  | capabilities caps =>
    exact .capabilities rfl (roundTrips _ _ (mapError_eq_ok_iff.mp built))
  | hello version =>
    cases built
    exact .hello version
  | verify merkleRoot =>
    cases built
    exact .verify merkleRoot
  | accept | done | cancel | pause =>
    cases built
    constructor
  | «have» chunkIds | want chunkIds | ack chunkIds =>
    cases built
    rw [length_putChunkIds] at small
    constructor
    omega
  | chunk | error =>
    cases built
    rw [length_append, length_putBlock] at small
    constructor
    omega
  | plan =>
    cases built
    simp only [append_assoc, length_append, length_putBlock] at small ⊢
    constructor
    omega
  | shard =>
    cases built
    simp only [append_assoc, length_append, length_putBlock] at small ⊢
    constructor
    omega
  | chunkBatch chunks =>
    cases built
    rw [length_append] at small
    have count := length_le_flatMap_putEntry chunks
    refine .chunkBatch (by omega) fun entry member => ?_
    have := length_entry_le member
    omega
  | nack chunkIds reason =>
    cases built
    rw [length_append, length_putChunkIds, length_putBlock] at small
    exact .nack (by omega) (by omega)
  | chunkVerify chunkId chunkHash proof =>
    cases built
    simp only [length_append, length_putBlock, length_siblings] at small
    have siblingsFit : proof.siblings.length < 256 ^ 4 := by omega
    have directionsFit : proof.directions.length < 256 ^ 4 := by omega
    have written (length : ℕ) :
        Written wire length .chunkVerify (.chunkVerify chunkId chunkHash proof) _ :=
      .chunkVerify chunkId chunkHash proof.leafIndex siblingsFit directionsFit
    simp only [append_assoc] at written ⊢
    exact written _

variable {wire} in
theorem Written.length_payload_le (compact : wire.Compact) {length : ℕ} {used payload : Bytes}
    (written : Written wire length type frame used) (built : frame.payload wire = .ok payload) :
    payload.length ≤ used.length := by
  cases written with
  | capabilities declared read =>
    exact compact _ _ _ (mapError_eq_ok_iff.mp built) read
  | plan | shard | chunkVerify =>
    cases built
    simp
  | _ =>
    cases built
    exact Nat.le_refl _

theorem accepts_decodePayload (type : FrameType) :
    Accepts (decodePayload wire length type) (Written wire length type) := by
  cases type with
  | hello => exact accepts_decodeHello wire length
  | capabilities => exact accepts_decodeCapabilities wire length
  | plan => exact accepts_decodePlan wire length
  | «have» => exact accepts_decodeHave wire length
  | want => exact accepts_decodeWant wire length
  | chunk => exact accepts_decodeChunk wire length
  | chunkBatch => exact accepts_decodeChunkBatch wire length
  | shard => exact accepts_decodeShard wire length
  | ack => exact accepts_decodeAck wire length
  | nack => exact accepts_decodeNack wire length
  | verify => exact accepts_decodeVerify wire length
  | chunkVerify => exact accepts_decodeChunkVerify wire length
  | error => exact accepts_decodeError wire length
  | accept | done | cancel | pause =>
    refine (accepts_pure _).congr fun frame used => ?_
    constructor
    · rintro ⟨rfl, rfl⟩
      constructor
    · rintro ⟨⟩
      exact ⟨rfl, rfl⟩

end Frame

namespace FrameHeader

theorem length_encode : header.encode.length = size := by
  simp [encode, length_putU16Le, length_putU32Le, size]

theorem accepts_decode : Accepts decode fun header used => used = header.encode := by
  refine Accepts.checked ((accepts_getU8.bind fun frameType => accepts_getU8.bind fun flags =>
    accepts_getU16Le.bind fun streamId =>
      accepts_getU32Le.map (FrameHeader.mk frameType flags streamId)).congr
        fun header used => ?_) ?_ _
  · constructor
    · rintro ⟨frameType, _, _, rfl, ⟨flags, _, _, rfl, ⟨streamId, _, _, rfl,
        ⟨length, rfl, rfl⟩, rfl⟩, rfl⟩, rfl⟩
      rfl
    · rintro rfl
      exact ⟨_, _, _, rfl, ⟨_, _, _, rfl, ⟨_, _, _, rfl, ⟨_, rfl, rfl⟩, rfl⟩, rfl⟩, rfl⟩
  · rintro header _ rfl
    exact header.length_encode.ge

theorem exists_encode {buf : Bytes} (enough : size ≤ buf.length) :
    ∃ header : FrameHeader, ∃ tail, buf = header.encode ++ tail := by
  match buf, enough with
  | frameType :: flags :: a :: b :: c :: d :: e :: f :: tail, _ =>
    refine ⟨⟨frameType, flags, UInt16.ofNat (Bytes.leValue [a, b]),
      UInt32.ofNat (Bytes.leValue [c, d, e, f])⟩, tail, ?_⟩
    rw [encode, putU16Le_ofNat rfl, putU32Le_ofNat rfl]
    rfl

end FrameHeader

namespace Frame

variable (wire : Serialization)

theorem decode_header (tail : Bytes) :
    decode wire (header.encode ++ tail) =
      if header.length.toNat > maxPayloadSize then
        .error (.protocol s!"Payload too large: {header.length.toNat} bytes")
      else if tail.length < header.length.toNat then .ok (none, header.encode ++ tail)
      else (decodeBody wire header tail).bind fun read => .ok (some read.1, read.2) := by
  have front := header.length_encode
  have read : FrameHeader.decode header.encode = .ok (header, []) :=
    (FrameHeader.accepts_decode _ _ _).mpr ⟨_, rfl, (append_nil _).symm⟩
  rw [decode, if_neg (by rw [length_append]; omega), List.take_left' front,
    List.drop_left' front, read, ok_bind, length_append, front]
  simp

theorem decodeBody_eq_ok_iff {header : FrameHeader} {tail rest : Bytes} :
    decodeBody wire header tail = .ok (frame, rest) ↔
      ∃ type used, FrameType.ofCode header.frameType = some type ∧
        Written wire header.length.toNat type frame used ∧ tail = used ++ rest := by
  cases known : FrameType.ofCode header.frameType with
  | some type =>
    simp only [decodeBody, known]
    rw [accepts_decodePayload wire _ type tail frame rest]
    simp
  | none => simp [decodeBody, known, ByteReader.convert, Outcome.ofExcept, Except.map]

/-- A frame is decoded exactly from the bytes of a header and one of its payloads, if as many
bytes as the header declares are there. -/
theorem decode_eq_some_iff {buf rest : Bytes} :
    decode wire buf = .ok (some frame, rest) ↔
      ∃ header : FrameHeader, ∃ type used, FrameType.ofCode header.frameType = some type ∧
        header.length.toNat ≤ maxPayloadSize ∧ header.length.toNat ≤ (used ++ rest).length ∧
        Written wire header.length.toNat type frame used ∧
        buf = header.encode ++ (used ++ rest) := by
  constructor
  · intro decoded
    by_cases short : buf.length < FrameHeader.size
    · rw [decode, if_pos short] at decoded
      cases decoded
    obtain ⟨header, tail, rfl⟩ := FrameHeader.exists_encode (Nat.le_of_not_lt short)
    rw [decode_header] at decoded
    split at decoded
    · contradiction
    split at decoded
    · cases decoded
    rename_i small enough
    obtain ⟨⟨read, left⟩, body, ⟨⟩⟩ := bind_eq_ok_iff.mp decoded
    obtain ⟨type, used, known, written, rfl⟩ := (decodeBody_eq_ok_iff wire).mp body
    exact ⟨header, type, used, known, Nat.le_of_not_lt small, Nat.le_of_not_lt enough, written, rfl⟩
  · rintro ⟨header, type, used, known, small, enough, written, rfl⟩
    rw [decode_header, if_neg (Nat.not_lt.mpr small), if_neg (Nat.not_lt.mpr enough),
      (decodeBody_eq_ok_iff wire).mpr ⟨type, used, known, written, rfl⟩]
    rfl

end Frame

end Warp.Net
