import Warp.Block.Error
import Warp.Foundation.Bytes
import Warp.Foundation.Traced

/-! # The transmission phase of the network block device protocol

A server reads requests off a byte stream, makes calls on the volume of its export and sends
replies, until the client disconnects or the stream ends. An error of a command is reported to
the client; one of reading or parsing a request ends the connection.
-/

namespace Warp.Block

inductive NbdCommand where
  | read
  | write
  | disc
  | flush
  | trim
  | cache
  | writeZeroes
  | blockStatus
  | resize
deriving DecidableEq

def NbdCommand.tryFrom : ℕ → Except BlockError NbdCommand
  | 0 => .ok read
  | 1 => .ok write
  | 2 => .ok disc
  | 3 => .ok flush
  | 4 => .ok trim
  | 5 => .ok cache
  | 6 => .ok writeZeroes
  | 7 => .ok blockStatus
  | 8 => .ok resize
  | value => .error (.protocol s!"Unknown command: {value}")

structure CommandFlags where
  bits : UInt16
deriving DecidableEq

namespace CommandFlags

def fua : UInt16 := 0x01

def fastZero : UInt16 := 0x10

def hasFua (flags : CommandFlags) : Bool := flags.bits &&& fua != 0

def hasFastZero (flags : CommandFlags) : Bool := flags.bits &&& fastZero != 0

end CommandFlags

structure NbdRequest where
  flags : CommandFlags
  command : NbdCommand
  handle : UInt64
  offset : UInt64
  length : UInt32
deriving DecidableEq

namespace NbdRequest

def size : ℕ := 28

def magic : ℕ := 0x25609513

def parse (data : Bytes) : Except BlockError NbdRequest :=
  if data.length < size then .error (.protocol "Request too short")
  else
    let found := Bytes.beValue (data.slice 0 4)
    if found ≠ magic then
      .error (.protocol s!"Invalid request magic: {paddedHex 8 found}")
    else do
      let command ← NbdCommand.tryFrom (Bytes.beValue (data.slice 6 8))
      return {
        flags := ⟨UInt16.ofNat (Bytes.beValue (data.slice 4 6))⟩
        command
        handle := UInt64.ofNat (Bytes.beValue (data.slice 8 16))
        offset := UInt64.ofNat (Bytes.beValue (data.slice 16 24))
        length := UInt32.ofNat (Bytes.beValue (data.slice 24 28)) }

end NbdRequest

/-- The bytes of a simple reply: the magic number, the error code and the handle. -/
def NbdReply.encode (handle : UInt64) (error : NbdError) : Bytes :=
  Bytes.beBytes 4 0x67446698 ++ Bytes.beBytes 4 error.code ++ Bytes.beBytes 8 handle.toNat

/-- Export information. -/
structure ExportInfo where
  size : UInt64
  flags : UInt16

def TransmissionFlags.readOnly : UInt16 := 0x02

def ExportInfo.isReadOnly (info : ExportInfo) : Bool :=
  info.flags &&& TransmissionFlags.readOnly != 0

inductive Effect where
  | read (offset : UInt64) (length : UInt32)
  | write (offset : UInt64) (data : Bytes)
  | flush
  | trim (offset : UInt64) (length : UInt32)
  | writeZeroes (offset : UInt64) (length : UInt32) (fast : Bool)
  | send (bytes : Bytes)
deriving DecidableEq

/-- How the volume and the stream to the client answer, after the effects so far. -/
structure Surroundings where
  read : List Effect → UInt64 → UInt32 → Except BlockError Bytes
  perform : List Effect → Effect → Except BlockError Unit

/-- The bytes a client still sends, and the error that reading past them ends in. -/
structure Stream where
  bytes : Bytes
  ending : IoErrorKind

/-- Read a number of bytes. If there are fewer, they are read and lost. -/
def Stream.readExact (stream : Stream) (count : ℕ) : Except BlockError Bytes × Stream :=
  if count ≤ stream.bytes.length then
    (.ok (stream.bytes.take count), { stream with bytes := stream.bytes.drop count })
  else (.error (.io stream.ending), { stream with bytes := [] })

inductive ConnectionState where
  | transmission
  | closed
deriving DecidableEq

namespace NbdRequest

/-- The check of the bounds of a request, with the 64-bit sum of a release build. -/
def outOfBounds (request : NbdRequest) (info : ExportInfo) : Bool :=
  request.offset + request.length.toUInt64 > info.size

def invalidOffset (request : NbdRequest) (info : ExportInfo) : BlockError :=
  .invalidOffset request.offset.toNat info.size.toNat

end NbdRequest

namespace NbdConnection

variable (surroundings : Surroundings) (info : ExportInfo)

def fail {Value : Type} (failure : BlockError) : Traced Effect BlockError Value :=
  .ofOutcome (.error failure)

def perform (effect : Effect) : Traced Effect BlockError Unit :=
  .request (fun history made => .ofExcept (surroundings.perform history made)) effect

def volumeRead (offset : UInt64) (length : UInt32) : Traced Effect BlockError Bytes :=
  .request (fun history _ => .ofExcept (surroundings.read history offset length))
    (.read offset length)

def sendReply (handle : UInt64) (error : NbdError) : Traced Effect BlockError Unit :=
  perform surroundings (.send (NbdReply.encode handle error))

section
variable (request : NbdRequest)

def handleRead : Traced Effect BlockError Unit :=
  if request.outOfBounds info then fail (request.invalidOffset info)
  else do
    let data ← volumeRead surroundings request.offset request.length
    perform surroundings (.send (NbdReply.encode request.handle .ok ++ data))

/-- Handle write command. The data is read off the stream before any error is returned. -/
def handleWrite (payload : Except BlockError Bytes) : Traced Effect BlockError Unit :=
  if info.isReadOnly then do
    let _ ← Traced.ofOutcome (.ofExcept payload)
    fail .readOnly
  else if request.outOfBounds info then do
    let _ ← Traced.ofOutcome (.ofExcept payload)
    fail (request.invalidOffset info)
  else do
    let data ← Traced.ofOutcome (.ofExcept payload)
    perform surroundings (.write request.offset data)
    if request.flags.hasFua then
      perform surroundings .flush
    sendReply surroundings request.handle .ok

def handleTrim : Traced Effect BlockError Unit :=
  if request.outOfBounds info then fail (request.invalidOffset info)
  else do
    perform surroundings (.trim request.offset request.length)
    sendReply surroundings request.handle .ok

def handleWriteZeroes : Traced Effect BlockError Unit :=
  if info.isReadOnly then fail .readOnly
  else if request.outOfBounds info then fail (request.invalidOffset info)
  else do
    perform surroundings (.writeZeroes request.offset request.length request.flags.hasFastZero)
    if request.flags.hasFua then
      perform surroundings .flush
    sendReply surroundings request.handle .ok

/-- Handle a command, given what reading the data of a write off the stream returns. Whether
the connection goes on. -/
def handleCommand (payload : Except BlockError Bytes) : Traced Effect BlockError Bool :=
  match request.command with
  | .read => do
      handleRead surroundings info request
      return true
  | .write => do
      handleWrite surroundings info request payload
      return true
  | .disc => pure false
  | .flush => do
      perform surroundings .flush
      sendReply surroundings request.handle .ok
      return true
  | .trim => do
      handleTrim surroundings info request
      return true
  | .writeZeroes => do
      handleWriteZeroes surroundings info request
      return true
  | .cache => do
      sendReply surroundings request.handle .ok
      return true
  | .blockStatus | .resize => do
      sendReply surroundings request.handle .notSup
      return true

/-- The data of a write, which every path of its handler reads, and the stream after it. -/
def readPayload (stream : Stream) : Except BlockError Bytes × Stream :=
  if request.command = .write then stream.readExact request.length.toNat else (.ok [], stream)

/-- Handle a request and report an error to the client. -/
def handleRequest (payload : Except BlockError Bytes) : Traced Effect BlockError Bool :=
  (handleCommand surroundings info request payload).recover fun failure => do
    sendReply surroundings request.handle failure.toNbdError
    return true

end

/-- Read and parse the next request of a stream, and the data that follows a write. -/
def nextRequest (stream : Stream) :
    Except BlockError (NbdRequest × Except BlockError Bytes × Stream) :=
  match stream.readExact NbdRequest.size with
  | (.error failure, _) => .error failure
  | (.ok buffer, stream) => do
      let request ← NbdRequest.parse buffer
      return (request, readPayload request stream)

/-- What becomes of a connection that finds no further request: the end of the stream closes
it, and any other error of reading, or one of parsing, is returned. -/
def stop : BlockError → Traced Effect BlockError ConnectionState
  | .io .unexpectedEof => pure .closed
  | failure => fail failure

/-- A number of turns of the transmission loop. -/
def serve : ℕ → Stream → Traced Effect BlockError ConnectionState
  | 0, _ => pure .transmission
  | turns + 1, stream =>
    match nextRequest stream with
    | .error failure => stop failure
    | .ok (request, payload, stream) => do
        let continues ← handleRequest surroundings info request payload
        if continues then serve turns stream else pure .closed

/-- Run the transmission loop, for more turns than a stream can have requests. -/
def runTransmissionLoop (stream : Stream) : Traced Effect BlockError ConnectionState :=
  serve surroundings info (stream.bytes.length + 1) stream

/-- The requests of a stream with the data read for them, as the loop finds them up to a
disconnect. -/
def requests : ℕ → Stream → List (NbdRequest × Except BlockError Bytes)
  | 0, _ => []
  | turns + 1, stream =>
    match nextRequest stream with
    | .error _ => []
    | .ok (request, payload, stream) =>
      (request, payload) :: if request.command = .disc then [] else requests turns stream

variable {surroundings info} {payload : Except BlockError Bytes} {request : NbdRequest}
  {stream : Stream} {rest : Stream}

theorem nextRequest_eq_ok (found : nextRequest stream = .ok (request, payload, rest)) :
    NbdRequest.size ≤ stream.bytes.length ∧ ∃ after : Stream,
      after.bytes = stream.bytes.drop NbdRequest.size ∧
        readPayload request after = (payload, rest) := by
  rw [nextRequest, Stream.readExact] at found
  by_cases enough : NbdRequest.size ≤ stream.bytes.length
  · rw [if_pos enough] at found
    obtain ⟨parsed, -, returned⟩ := Outcome.except_bind_eq_ok_iff.mp found
    simp only [pure, Except.pure, Except.ok.injEq, Prod.mk.injEq] at returned
    obtain ⟨rfl, loaded⟩ := returned
    exact ⟨enough, _, rfl, loaded⟩
  · rw [if_neg enough] at found
    cases found

theorem length_readPayload_le (request : NbdRequest) (stream : Stream) :
    (readPayload request stream).2.bytes.length ≤ stream.bytes.length := by
  unfold readPayload Stream.readExact
  split
  · split
    · exact (List.drop_sublist _ _).length_le
    · exact Nat.zero_le _
  · exact le_rfl

theorem length_nextRequest_lt (found : nextRequest stream = .ok (request, payload, rest)) :
    rest.bytes.length < stream.bytes.length := by
  obtain ⟨enough, after, dropped, loaded⟩ := nextRequest_eq_ok found
  have shorter := length_readPayload_le request after
  rw [loaded, dropped, List.length_drop] at shorter
  have positive : 0 < NbdRequest.size := by decide
  change rest.bytes.length ≤ _ at shorter
  omega

theorem serve_add_of_lt {turns : ℕ} (enough : stream.bytes.length < turns) (extra : ℕ) :
    serve surroundings info (turns + extra) stream = serve surroundings info turns stream := by
  induction turns generalizing stream with
  | zero => omega
  | succ turns ih =>
    rw [Nat.add_right_comm]
    cases found : nextRequest stream with
    | error failure => simp only [serve, found]
    | ok next =>
      obtain ⟨request, payload, rest⟩ := next
      have shorter := length_nextRequest_lt found
      simp only [serve, found, ih (show rest.bytes.length < turns by omega)]

end NbdConnection

end Warp.Block
