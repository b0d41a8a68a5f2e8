import Warp.Foundation.ByteReader

/-! # Frames and their wire format

A frame is a header of eight bytes and a payload: numbers little-endian, lists and byte strings
behind their length. The header's length is patched in after the payload. Decoding waits for the
declared payload and then reads the fields, each checked against what remains of the whole buffer.
-/

namespace Warp.Net

inductive Error where
  | connection (text : String)
  | protocol (text : String)
  deriving DecidableEq

structure GpuInfo where
  name : String
  memory : UInt64
  nvcomp : Bool
  deriving DecidableEq

structure Capabilities where
  nodeId : String
  hostname : String
  cpuCores : UInt32
  gpu : Option GpuInfo
  compression : List String
  hashes : List String
  maxChunkSize : UInt32
  maxStreams : UInt32
  supportsDedup : Bool
  supportsEncryption : Bool
  deriving DecidableEq

structure WireMerkleProof where
  siblings : List (Vector UInt8 32)
  leafIndex : UInt32
  directions : Bytes
  deriving DecidableEq

/-- The frame types that have a frame. `METADATA` and `END_OF_DATA` have none: decoding knows
them as little as any other code. -/
inductive FrameType where
  | hello | capabilities | plan | accept
  | «have» | want
  | chunk | chunkBatch | shard
  | ack | nack
  | done | verify | chunkVerify | error | cancel | pause
  deriving DecidableEq

def FrameType.code : FrameType → UInt8
  | hello => 0x01
  | capabilities => 0x02
  | plan => 0x03
  | accept => 0x04
  | «have» => 0x05
  | want => 0x06
  | chunk => 0x11
  | chunkBatch => 0x12
  | shard => 0x14
  | ack => 0x20
  | nack => 0x21
  | done => 0x30
  | verify => 0x31
  | chunkVerify => 0x32
  | error => 0x40
  | cancel => 0x41
  | pause => 0x42

def FrameType.ofCode : UInt8 → Option FrameType
  | 0x01 => some hello
  | 0x02 => some capabilities
  | 0x03 => some plan
  | 0x04 => some accept
  | 0x05 => some «have»
  | 0x06 => some want
  | 0x11 => some chunk
  | 0x12 => some chunkBatch
  | 0x14 => some shard
  | 0x20 => some ack
  | 0x21 => some nack
  | 0x30 => some done
  | 0x31 => some verify
  | 0x32 => some chunkVerify
  | 0x40 => some error
  | 0x41 => some cancel
  | 0x42 => some pause
  | _ => none

@[simp] theorem FrameType.ofCode_code (type : FrameType) : ofCode type.code = some type := by
  cases type <;> rfl

inductive Frame where
  | hello (version : UInt32)
  | capabilities (caps : Capabilities)
  | plan (totalSize : UInt64) (numChunks chunkSize : UInt32) (metadata : Bytes)
  | accept
  | «have» (chunkIds : List UInt32)
  | want (chunkIds : List UInt32)
  | chunk (chunkId : UInt32) (data : Bytes)
  | chunkBatch (chunks : List (UInt32 × Bytes))
  | shard (chunkId : UInt32) (shardIdx totalShards : UInt16) (data : Bytes)
  | ack (chunkIds : List UInt32)
  | nack (chunkIds : List UInt32) (reason : String)
  | done
  | verify (merkleRoot : Vector UInt8 32)
  | chunkVerify (chunkId : UInt32) (chunkHash : Vector UInt8 32) (proof : WireMerkleProof)
  | error (code : UInt32) (message : String)
  | cancel
  | pause
  deriving DecidableEq

def Frame.frameType : Frame → FrameType
  | hello .. => .hello
  | capabilities .. => .capabilities
  | plan .. => .plan
  | accept => .accept
  | «have» .. => .«have»
  | want .. => .want
  | chunk .. => .chunk
  | chunkBatch .. => .chunkBatch
  | shard .. => .shard
  | ack .. => .ack
  | nack .. => .nack
  | done => .done
  | verify .. => .verify
  | chunkVerify .. => .chunkVerify
  | error .. => .error
  | cancel => .cancel
  | pause => .pause

/-- What the codec takes from its libraries: the MessagePack form of capabilities, and the
text of the error for bytes that are no text. -/
structure Serialization where
  /-- `rmp_serde::to_vec`. -/
  toVec : Capabilities → Except String Bytes
  /-- `rmp_serde::from_slice`. -/
  fromSlice : Bytes → Except String Capabilities
  utf8Error : Bytes → String

/-- Capabilities that were serialised are read back. -/
def Serialization.RoundTrips (wire : Serialization) : Prop :=
  ∀ caps encoded, wire.toVec caps = .ok encoded → wire.fromSlice encoded = .ok caps

/-- No bytes that are read as some capabilities are shorter than the serialised ones. -/
def Serialization.Compact (wire : Serialization) : Prop :=
  ∀ caps encoded bytes, wire.toVec caps = .ok encoded → wire.fromSlice bytes = .ok caps →
    encoded.length ≤ bytes.length

def asBytes (text : String) : Bytes := text.toByteArray.data.toList

/-- `std::str::from_utf8`. -/
def fromUtf8 (wire : Serialization) (bytes : Bytes) : Except String String :=
  match String.fromUTF8? ⟨bytes.toArray⟩ with
  | some text => .ok text
  | none => .error (wire.utf8Error bytes)

def putU16Le (value : UInt16) : Bytes := Bytes.leBytes 2 value.toNat

def putU32Le (value : UInt32) : Bytes := Bytes.leBytes 4 value.toNat

def putU64Le (value : UInt64) : Bytes := Bytes.leBytes 8 value.toNat

def putLength (length : ℕ) : Bytes := putU32Le (UInt32.ofNat length)

def getU8 : ByteReader Error UInt8 := do
  let value ← ByteReader.number 1
  pure (UInt8.ofNat value)

def getU16Le : ByteReader Error UInt16 := do
  let value ← ByteReader.number 2
  pure (UInt16.ofNat value)

def getU32Le : ByteReader Error UInt32 := do
  let value ← ByteReader.number 4
  pure (UInt32.ofNat value)

def getU64Le : ByteReader Error UInt64 := do
  let value ← ByteReader.number 8
  pure (UInt64.ofNat value)

def getHash : ByteReader Error (Vector UInt8 32) := do
  let bytes ← ByteReader.take 32
  pure (Bytes.toVector 32 bytes)

structure FrameHeader where
  frameType : UInt8
  flags : UInt8
  streamId : UInt16
  length : UInt32

namespace FrameHeader

def size : ℕ := 8

def encode (header : FrameHeader) : Bytes :=
  header.frameType :: header.flags :: putU16Le header.streamId ++ putU32Le header.length

def decode : ByteReader Error FrameHeader :=
  .checked size (.protocol "Incomplete header") do
    let frameType ← getU8
    let flags ← getU8
    let streamId ← getU16Le
    let length ← getU32Le
    pure ⟨frameType, flags, streamId, length⟩

end FrameHeader

def maxPayloadSize : ℕ := 16 * 1024 * 1024

namespace Frame

variable (wire : Serialization)

def putChunkIds (chunkIds : List UInt32) : Bytes :=
  putLength chunkIds.length ++ chunkIds.flatMap putU32Le

def putBlock (bytes : Bytes) : Bytes := putLength bytes.length ++ bytes

def putEntry (entry : UInt32 × Bytes) : Bytes := putU32Le entry.1 ++ putBlock entry.2

/-- What `encode` appends behind the header. -/
def payload : Frame → Except Error Bytes
  | hello version => .ok (putU32Le version)
  | capabilities caps =>
    (wire.toVec caps).mapError fun text => .protocol s!"Failed to encode capabilities: {text}"
  | plan totalSize numChunks chunkSize metadata =>
    .ok (putU64Le totalSize ++ putU32Le numChunks ++ putU32Le chunkSize ++ putBlock metadata)
  | «have» chunkIds | want chunkIds | ack chunkIds => .ok (putChunkIds chunkIds)
  | chunk chunkId data => .ok (putU32Le chunkId ++ putBlock data)
  | chunkBatch chunks => .ok (putLength chunks.length ++ chunks.flatMap putEntry)
  | shard chunkId shardIdx totalShards data =>
    .ok (putU32Le chunkId ++ putU16Le shardIdx ++ putU16Le totalShards ++ putBlock data)
  | nack chunkIds reason => .ok (putChunkIds chunkIds ++ putBlock (asBytes reason))
  | verify merkleRoot => .ok merkleRoot.toList
  | chunkVerify chunkId chunkHash proof =>
    .ok (putU32Le chunkId ++ chunkHash.toList ++
      (putLength proof.siblings.length ++ proof.siblings.flatMap Vector.toList) ++
      putU32Le proof.leafIndex ++ putBlock proof.directions)
  | error code message => .ok (putU32Le code ++ putBlock (asBytes message))
  | accept | done | cancel | pause => .ok []

def encode (frame : Frame) (buf : Bytes) : Except Error Bytes := do
  let payloadStart := buf.length + FrameHeader.size
  let header : FrameHeader := ⟨frame.frameType.code, 0, 0, 0⟩
  let payload ← frame.payload wire
  let buf := buf ++ header.encode ++ payload
  let payloadLen := buf.length - payloadStart
  if payloadLen > maxPayloadSize then
    throw (.protocol s!"Payload too large: {payloadLen} bytes")
  -- The length overwrites the last four bytes of the header.
  pure (buf.take (payloadStart - 4) ++ putLength payloadLen ++ buf.drop payloadStart)

/-- The chunk ids of a `HAVE`, `WANT`, `ACK` or `NACK` frame. -/
def getChunkIds (name : String) : ByteReader Error (List UInt32) :=
  .checked 4 (.protocol s!"Incomplete {name} frame")
    (.counted 4 (.checked 4 (.protocol s!"Incomplete {name} chunk IDs") getU32Le))

def decodeHello : ByteReader Error Frame :=
  .checked 4 (.protocol "Incomplete HELLO frame") do
    let version ← getU32Le
    pure (hello version)

def decodeCapabilities (length : ℕ) : ByteReader Error Frame := do
  let payload ← ByteReader.take length
  let caps ← .convert ((wire.fromSlice payload).mapError fun text =>
    .protocol s!"Failed to decode capabilities: {text}")
  pure (capabilities caps)

def decodePlan : ByteReader Error Frame :=
  .checked 20 (.protocol "Incomplete PLAN frame") do
    let totalSize ← getU64Le
    let numChunks ← getU32Le
    let chunkSize ← getU32Le
    let metadata ← .block 4 (.protocol "Incomplete PLAN metadata")
    pure (plan totalSize numChunks chunkSize metadata)

def decodeHave : ByteReader Error Frame := do
  let chunkIds ← getChunkIds "HAVE"
  pure («have» chunkIds)

def decodeWant : ByteReader Error Frame := do
  let chunkIds ← getChunkIds "WANT"
  pure (want chunkIds)

def decodeChunk : ByteReader Error Frame :=
  .checked 8 (.protocol "Incomplete CHUNK frame") do
    let chunkId ← getU32Le
    let data ← .block 4 (.protocol "Incomplete CHUNK data")
    pure (chunk chunkId data)

def getEntry : ByteReader Error (UInt32 × Bytes) :=
  .checked 8 (.protocol "Incomplete CHUNK_BATCH entry") do
    let chunkId ← getU32Le
    let data ← .block 4 (.protocol "Incomplete CHUNK_BATCH data")
    pure (chunkId, data)

def decodeChunkBatch : ByteReader Error Frame :=
  .checked 4 (.protocol "Incomplete CHUNK_BATCH frame") do
    let chunks ← .counted 4 getEntry
    pure (chunkBatch chunks)

def decodeShard : ByteReader Error Frame :=
  .checked 12 (.protocol "Incomplete SHARD frame") do
    let chunkId ← getU32Le
    let shardIdx ← getU16Le
    let totalShards ← getU16Le
    let data ← .block 4 (.protocol "Incomplete SHARD data")
    pure (shard chunkId shardIdx totalShards data)

def decodeAck : ByteReader Error Frame := do
  let chunkIds ← getChunkIds "ACK"
  pure (ack chunkIds)

def decodeNack : ByteReader Error Frame := do
  let chunkIds ← getChunkIds "NACK"
  let reasonBytes ← .checked 4 (.protocol "Incomplete NACK reason")
    (.block 4 (.protocol "Incomplete NACK reason"))
  let reason ← .convert ((fromUtf8 wire reasonBytes).mapError fun text =>
    .protocol s!"Invalid UTF-8 in NACK reason: {text}")
  pure (nack chunkIds reason)

def decodeVerify : ByteReader Error Frame :=
  .checked 32 (.protocol "Incomplete VERIFY frame") do
    let merkleRoot ← getHash
    pure (verify merkleRoot)

def decodeChunkVerify : ByteReader Error Frame :=
  .checked 40 (.protocol "Incomplete CHUNK_VERIFY frame") do
    let chunkId ← getU32Le
    let chunkHash ← getHash
    let siblings ← .counted 4
      (.checked 32 (.protocol "Incomplete CHUNK_VERIFY siblings") getHash)
    .checked 8 (.protocol "Incomplete CHUNK_VERIFY proof") do
      let leafIndex ← getU32Le
      let directions ← .block 4 (.protocol "Incomplete CHUNK_VERIFY directions")
      pure (chunkVerify chunkId chunkHash ⟨siblings, leafIndex, directions⟩)

def decodeError : ByteReader Error Frame :=
  .checked 8 (.protocol "Incomplete ERROR frame") do
    let code ← getU32Le
    let msgBytes ← .block 4 (.protocol "Incomplete ERROR message")
    let message ← .convert ((fromUtf8 wire msgBytes).mapError fun text =>
      .protocol s!"Invalid UTF-8 in ERROR message: {text}")
    pure (error code message)

/-- Read the payload of a frame type, with the length the header declares. -/
def decodePayload (length : ℕ) : FrameType → ByteReader Error Frame
  | .hello => decodeHello
  | .capabilities => decodeCapabilities wire length
  | .plan => decodePlan
  | .accept => pure accept
  | .«have» => decodeHave
  | .want => decodeWant
  | .chunk => decodeChunk
  | .chunkBatch => decodeChunkBatch
  | .shard => decodeShard
  | .ack => decodeAck
  | .nack => decodeNack wire
  | .done => pure done
  | .verify => decodeVerify
  | .chunkVerify => decodeChunkVerify
  | .error => decodeError wire
  | .cancel => pure cancel
  | .pause => pure pause

def decodeBody (header : FrameHeader) : ByteReader Error Frame :=
  match FrameType.ofCode header.frameType with
  | some type => decodePayload wire header.length.toNat type
  | none => .convert (.error (.protocol s!"Unknown frame type: {header.frameType.toNat}"))

/-- Decode a frame off the front of the buffer. Without a whole frame the buffer stays as it
is. -/
def decode (buf : Bytes) : Outcome Error (Option Frame × Bytes) :=
  if buf.length < FrameHeader.size then .ok (none, buf)
  else (FrameHeader.decode (buf.take FrameHeader.size)).bind fun read =>
    let header := read.1
    if header.length.toNat > maxPayloadSize then
      .error (.protocol s!"Payload too large: {header.length.toNat} bytes")
    else if buf.length < FrameHeader.size + header.length.toNat then .ok (none, buf)
    else
      (decodeBody wire header (buf.drop FrameHeader.size)).bind
        fun read => .ok (some read.1, read.2)

end Frame

end Warp.Net
