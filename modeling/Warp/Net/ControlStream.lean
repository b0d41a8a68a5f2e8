import Warp.Net.FrameCodec

/-! # Frames on the control stream

A frame is sent by writing its bytes to the stream. Receiving starts with an empty buffer,
adds the chunks that the transport delivers until a frame can be decoded, and drops what is
left in the buffer with it. So the frames that are sent are received exactly if every one of
them ends where a chunk ends (`received_iff_aligned`).
-/

namespace Warp.Net

open List

structure ControlStreams where
  send : Option Bytes
  recv : Option (List Bytes)

def notOpen : Error := .protocol "Control stream not open"

def closed : Error := .connection "Connection closed"

variable (wire : Serialization) {chunks : List Bytes} {frame : Frame} {left : List Bytes}

def sendFrame (control : ControlStreams) (frame : Frame) : Except Error ControlStreams := do
  let pooledBuf ← frame.encode wire []
  match control.send with
  | none => throw notOpen
  | some written => pure { control with send := some (written ++ pooledBuf) }

/-- The loop of `recvFrame`: read chunks into the buffer until it starts with a frame. -/
def recvLoop (pooledBuf : Bytes) : List Bytes → Outcome Error Frame × List Bytes
  | [] => (.error closed, [])
  | chunk :: chunks =>
    match Frame.decode wire (pooledBuf ++ chunk) with
    -- The buffer goes back to the pool with all that it holds behind the frame.
    | .ok (some frame, _) => (.ok frame, chunks)
    | .ok (none, pooledBuf) => recvLoop pooledBuf chunks
    | .error failure => (.error failure, chunks)
    | .panic => (.panic, chunks)

def recvFrame (control : ControlStreams) : Outcome Error Frame × ControlStreams :=
  match control.recv with
  | none => (.error notOpen, control)
  | some chunks =>
    let (result, chunks) := recvLoop wire [] chunks
    (result, { control with recv := some chunks })

def sendFrames (control : ControlStreams) (frames : List Frame) : Except Error ControlStreams :=
  frames.foldlM (sendFrame wire) control

def recvFrames : ℕ → ControlStreams → List (Outcome Error Frame)
  | 0, _ => []
  | count + 1, control =>
    (recvFrame wire control).1 :: recvFrames count (recvFrame wire control).2

section Loop
variable {wire} {encoded : Bytes}

open Warp.Net.Frame (Encoded)

/-- The loop takes chunks until the frame is complete, and no more. -/
theorem recvLoop_encoded (roundTrips : wire.RoundTrips) (isEncoded : Encoded wire frame encoded)
    (buf : Bytes) {rest : Bytes} (waiting : buf.length < encoded.length)
    (stream : buf ++ chunks.flatten = encoded ++ rest) :
    ∃ count excess, recvLoop wire buf chunks = (.ok frame, chunks.drop count) ∧
      buf ++ (chunks.take count).flatten = encoded ++ excess ∧
      ∀ other, encoded.length ≤ (buf ++ (chunks.take other).flatten).length → count ≤ other := by
  induction chunks generalizing buf with
  | nil =>
    have := congrArg List.length stream
    simp only [flatten_nil, append_nil, length_append] at this
    omega
  | cons chunk chunks ih =>
    rw [flatten_cons, ← append_assoc] at stream
    have arrived : buf ++ chunk <+: encoded ++ rest := ⟨_, stream⟩
    have later {count other : ℕ}
        (least : ∀ other, encoded.length ≤ (buf ++ (chunk :: chunks.take other).flatten).length →
          count ≤ other)
        (enough : encoded.length ≤ (buf ++ ((chunk :: chunks).take other).flatten).length) :
        count + 1 ≤ other := by
      cases other with
      | zero =>
        simp only [take_zero, flatten_nil, append_nil] at enough
        omega
      | succ other => exact Nat.succ_le_succ (least other enough)
    rcases Nat.lt_or_ge (buf ++ chunk).length encoded.length with short | complete
    · obtain ⟨missing, whole⟩ :=
        prefix_of_prefix_length_le arrived (prefix_append _ _) short.le
      have more : missing ≠ [] := by
        rintro rfl
        rw [append_nil] at whole
        exact absurd (congrArg List.length whole) short.ne
      obtain ⟨count, excess, received, taken, least⟩ := ih _ short stream
      refine ⟨count + 1, excess, ?_, ?_, fun other => later fun other enough => least other ?_⟩
      · rw [← whole] at isEncoded
        rw [recvLoop, isEncoded.decode_part more]
        exact received
      · rw [take_succ_cons, flatten_cons, ← append_assoc]
        exact taken
      · rwa [flatten_cons, ← append_assoc] at enough
    · obtain ⟨excess, whole⟩ :=
        prefix_of_prefix_length_le (prefix_append _ _) arrived complete
      refine ⟨1, excess, ?_, ?_, fun other => later fun other _ => Nat.zero_le other⟩
      · rw [recvLoop, ← whole, isEncoded.decode_append roundTrips]
        rfl
      · rw [take_succ_cons, take_zero, flatten_cons, flatten_nil, append_nil, whole]

/-- A frame is not received from fewer bytes than it is encoded in. -/
theorem recvLoop_takes (compact : wire.Compact) (isEncoded : Encoded wire frame encoded)
    {buf : Bytes} (received : recvLoop wire buf chunks = (.ok frame, left)) :
    encoded.length + left.flatten.length ≤ (buf ++ chunks.flatten).length := by
  induction chunks generalizing buf with
  | nil => cases received
  | cons chunk chunks ih =>
    rw [recvLoop] at received
    rw [flatten_cons, ← append_assoc]
    split at received
    · rename_i found _ decoded
      cases received
      have := isEncoded.length_le compact decoded
      rw [length_append]
      omega
    · rename_i pooled decoded
      rw [Frame.decode_none_rest decoded] at received
      exact ih received
    · cases received
    · cases received

theorem recvLoop_nothing (empty : chunks.flatten = []) :
    recvLoop wire [] chunks = (.error closed, []) := by
  induction chunks with
  | nil => rfl
  | cons chunk chunks ih =>
    rw [flatten_cons] at empty
    obtain ⟨rfl, others⟩ := append_eq_nil_iff.mp empty
    exact ih others

end Loop

variable {wire} {written : Bytes} {count : ℕ} {control : ControlStreams}

open Warp.Net.Frame (Encoded)

/-- Every frame ends where a chunk ends. -/
def Aligned (chunks encodings : List Bytes) : Prop :=
  ∀ sent ≤ encodings.length, ∃ taken, (chunks.take taken).flatten = (encodings.take sent).flatten

theorem aligned_cons_iff {encodings : List Bytes} {encoding excess : Bytes}
    (taken : (chunks.take count).flatten = encoding ++ excess)
    (least : ∀ other, encoding.length ≤ ((chunks.take other).flatten).length → count ≤ other) :
    Aligned chunks (encoding :: encodings) ↔
      excess = [] ∧ Aligned (chunks.drop count) encodings := by
  -- Chunks that end behind the first frame are those it was taken from and some more.
  have later {other : ℕ} {rest : Bytes} (ends : (chunks.take other).flatten = encoding ++ rest) :
      excess ++ ((chunks.drop count).take (other - count)).flatten = rest := by
    have behind : count ≤ other := least other (by rw [ends]; simp)
    rw [← Nat.add_sub_cancel' behind, take_add, flatten_append, taken, append_assoc] at ends
    exact append_cancel_left ends
  constructor
  · intro aligned
    obtain ⟨first, ends⟩ := aligned 1 (Nat.le_add_left ..)
    obtain ⟨rfl, -⟩ := append_eq_nil_iff.mp (later ends)
    refine ⟨rfl, fun sent within => ?_⟩
    obtain ⟨other, ends⟩ := aligned (sent + 1) (Nat.succ_le_succ within)
    exact ⟨other - count, later ends⟩
  · rintro ⟨rfl, aligned⟩ sent within
    cases sent with
    | zero => exact ⟨0, rfl⟩
    | succ sent =>
      obtain ⟨other, ends⟩ := aligned sent (Nat.le_of_succ_le_succ within)
      refine ⟨count + other, ?_⟩
      rw [take_add, flatten_append, taken, ends, append_nil]
      rfl

theorem recvFrames_succ (count : ℕ) {result : Outcome Error Frame}
    (arriving : control.recv = some chunks) (received : recvLoop wire [] chunks = (result, left)) :
    recvFrames wire (count + 1) control =
      result :: recvFrames wire count { control with recv := some left } := by
  rw [recvFrames, recvFrame, arriving]
  simp only [received]

section
variable (compact : wire.Compact) {frames : List Frame} {encodings : List Bytes}
  (encoded : List.Forall₂ (Encoded wire) frames encodings) {control : ControlStreams}
  {chunks : List Bytes} (arriving : control.recv = some chunks)
include compact encoded arriving

/-- Received frames take up at least the bytes they are encoded in. -/
theorem recvFrames_takes {rest : List (Outcome Error Frame)}
    (received : recvFrames wire (frames.length + count) control = frames.map .ok ++ rest) :
    encodings.flatten.length ≤ chunks.flatten.length := by
  induction encoded generalizing control chunks with
  | nil => exact Nat.zero_le _
  | @cons frame encoding frames encodings first others ih =>
    cases loop : recvLoop wire [] chunks with
    | mk result left =>
      rw [length_cons, Nat.add_right_comm, recvFrames_succ _ arriving loop, map_cons,
        cons_append, List.cons.injEq] at received
      obtain ⟨rfl, received⟩ := received
      have here := recvLoop_takes compact first loop
      have there := ih rfl received
      rw [flatten_cons, length_append]
      rw [nil_append] at here
      omega

theorem recvFrames_iff_aligned (roundTrips : wire.RoundTrips)
    (stream : chunks.flatten = encodings.flatten) :
    recvFrames wire (frames.length + 1) control = frames.map .ok ++ [.error closed] ↔
      Aligned chunks encodings := by
  induction encoded generalizing control chunks with
  | nil =>
    refine ⟨fun _ sent within => ⟨0, ?_⟩, fun _ => ?_⟩
    · rw [length_nil, Nat.le_zero] at within
      rw [within, take_zero, take_zero]
    · rw [length_nil, recvFrames_succ 0 arriving (recvLoop_nothing stream)]
      rfl
  | @cons frame encoding frames encodings first others ih =>
    rw [flatten_cons] at stream
    obtain ⟨count, excess, loop, taken, least⟩ :=
      recvLoop_encoded roundTrips first [] first.length_pos stream
    rw [nil_append] at taken
    have left : excess ++ (chunks.drop count).flatten = encodings.flatten := by
      rw [← take_append_drop count chunks, flatten_append, taken, append_assoc] at stream
      exact append_cancel_left stream
    rw [length_cons, recvFrames_succ _ arriving loop, map_cons, cons_append,
      List.cons.injEq, and_iff_right rfl, aligned_cons_iff taken least]
    constructor
    · intro received
      -- What the first call dropped is missing for the others.
      have enough := recvFrames_takes compact others rfl received
      rw [← left, length_append] at enough
      obtain rfl : excess = [] := eq_nil_of_length_eq_zero (by omega)
      exact ⟨rfl, (ih rfl left).mp received⟩
    · rintro ⟨rfl, aligned⟩
      exact (ih rfl left).mpr aligned

end

theorem sendFrame_eq_ok {next : ControlStreams} (opened : control.send = some written)
    (sends : sendFrame wire control frame = .ok next) :
    ∃ encoded, Encoded wire frame encoded ∧ next.send = some (written ++ encoded) := by
  cases encodes : frame.encode wire [] with
  | error failure =>
    rw [sendFrame, encodes] at sends
    contradiction
  | ok pooledBuf =>
    obtain ⟨encoded, isEncoded⟩ := Frame.encoded_of_encode encodes
    obtain rfl : encoded = pooledBuf :=
      Except.ok.inj ((isEncoded.encode_eq []).symm.trans encodes)
    rw [sendFrame, encodes, opened] at sends
    cases sends
    exact ⟨encoded, isEncoded, rfl⟩

theorem sendFrames_eq_ok {sender : ControlStreams} {frames : List Frame}
    (opened : control.send = some written) (sends : sendFrames wire control frames = .ok sender) :
    ∃ encodings, List.Forall₂ (Encoded wire) frames encodings ∧
      sender.send = some (written ++ encodings.flatten) := by
  induction frames generalizing control written with
  | nil =>
    cases sends
    exact ⟨[], .nil, by rw [opened, flatten_nil, append_nil]⟩
  | cons frame frames ih =>
    cases first : sendFrame wire control frame with
    | error failure =>
      rw [sendFrames, foldlM_cons, first] at sends
      contradiction
    | ok next =>
      rw [sendFrames, foldlM_cons, first] at sends
      obtain ⟨encoded, isEncoded, written⟩ := sendFrame_eq_ok opened first
      obtain ⟨encodings, all, final⟩ := ih written sends
      refine ⟨encoded :: encodings, .cons isEncoded all, ?_⟩
      rw [final, flatten_cons, append_assoc]

/-- The frames that one peer sends are what the calls of the other peer return, in order and
followed by the end of the stream, exactly if every frame ends where a chunk ends. -/
theorem received_iff_aligned (wire : Serialization) (roundTrips : wire.RoundTrips)
    (compact : wire.Compact) (sent : List Frame) (opened sender receiver : ControlStreams)
    (chunks : List Bytes) (fresh : opened.send = some [])
    (sends : sendFrames wire opened sent = .ok sender)
    (delivered : sender.send = some chunks.flatten) (arriving : receiver.recv = some chunks) :
    recvFrames wire (sent.length + 1) receiver = sent.map .ok ++ [.error closed] ↔
      ∀ count ≤ sent.length, ∃ taken,
        Frame.encodeAll wire (sent.take count) [] = .ok (chunks.take taken).flatten := by
  obtain ⟨encodings, encoded, written⟩ := sendFrames_eq_ok fresh sends
  have stream : chunks.flatten = encodings.flatten := by
    rw [delivered] at written
    exact Option.some.inj written
  rw [recvFrames_iff_aligned compact encoded arriving roundTrips stream, Aligned,
    ← encoded.length_eq]
  refine forall₂_congr fun count within => exists_congr fun taken => ?_
  rw [Frame.encodeAll_eq (forall₂_take count encoded) [], nil_append, Except.ok.injEq]
  exact eq_comm

/-- Two frames that arrive in one chunk: the second one is lost. -/
theorem second_frame_lost :
    let opened : ControlStreams := ⟨some [], none⟩
    let stream : Bytes := [0x42, 0, 0, 0, 0, 0, 0, 0, 0x41, 0, 0, 0, 0, 0, 0, 0]
    sendFrames Frame.sampleSerialization opened [.pause, .cancel] = .ok ⟨some stream, none⟩ ∧
      recvFrames Frame.sampleSerialization 3 ⟨none, some [stream]⟩ =
        [.ok .pause, .error closed, .error closed] :=
  ⟨rfl, rfl⟩

/-- Two frames, each in two chunks. -/
theorem received_iff_aligned_pair :
    let hello : Bytes := [0x01, 0, 0, 0, 4, 0, 0, 0, 1, 0, 0, 0]
    let pause : Bytes := [0x42, 0, 0, 0, 0, 0, 0, 0]
    recvFrames Frame.sampleSerialization 3
        ⟨none, some [hello.take 9, hello.drop 9, pause.take 1, pause.drop 1]⟩ =
      [.ok (.hello 1), .ok .pause, .error closed] := by
  intro hello pause
  refine (received_iff_aligned Frame.sampleSerialization Frame.sampleSerialization_roundTrips
    Frame.sampleSerialization_compact [.hello 1, .pause] ⟨some [], none⟩
    ⟨some (hello ++ pause), none⟩ _ _ rfl rfl rfl rfl).mpr fun count within => ?_
  match count, within with
  | 0, _ => exact ⟨0, rfl⟩
  | 1, _ => exact ⟨2, rfl⟩
  | 2, _ => exact ⟨4, rfl⟩

end Warp.Net
