import Warp.Block.Nbd

/-! # Calls of the network block device server on its volume

The bounds of a request are compared after a sum that wraps at 64 bits, and a trim does not look
whether the export is read-only. A command stays within the export, and only reads a read-only one,
if and only if its request reaches neither gap (`NbdConnection.onlyAfter_handleCommand_iff`); so it
is for a stream (`NbdConnection.calls_confined_iff`).
-/

namespace Warp.Block

/-- A call on the volume lies within the export and leaves a read-only one unchanged. -/
def Effect.Confined (info : ExportInfo) : Effect → Prop
  | .read offset length => offset.toNat + length.toNat ≤ info.size.toNat
  | .write offset data =>
    offset.toNat + data.length ≤ info.size.toNat ∧ info.isReadOnly = false
  | .trim offset length | .writeZeroes offset length _ =>
    offset.toNat + length.toNat ≤ info.size.toNat ∧ info.isReadOnly = false
  | .flush | .send _ => True

instance (info : ExportInfo) (effect : Effect) : Decidable (effect.Confined info) := by
  cases effect <;> unfold Effect.Confined <;> infer_instance

namespace NbdRequest

variable {info : ExportInfo} {request : NbdRequest}

/-- The sum of offset and length wraps, and the check of the bounds passes. -/
def wrapsInside (request : NbdRequest) (info : ExportInfo) : Bool :=
  2 ^ 64 ≤ request.offset.toNat + request.length.toNat && !request.outOfBounds info

/-- A request reaches no call that leaves the export. A write needs its data to get there. -/
def staysInside (request : NbdRequest) (payload : Except BlockError Bytes) (info : ExportInfo) :
    Bool :=
  match request.command with
  | .read => !request.wrapsInside info
  | .write => info.isReadOnly || !request.wrapsInside info || !payload.toBool
  | .writeZeroes => info.isReadOnly || !request.wrapsInside info
  | .trim =>
    if info.isReadOnly then request.outOfBounds info else !request.wrapsInside info
  | .disc | .flush | .cache | .blockStatus | .resize => true

theorem toNat_sum (request : NbdRequest) :
    (request.offset + request.length.toUInt64).toNat =
      (request.offset.toNat + request.length.toNat) % 2 ^ 64 := by
  rw [UInt64.toNat_add, UInt32.toNat_toUInt64]

/-- Where the check passes, the exact sum is within the bounds unless it wrapped. -/
theorem le_size_iff (inside : request.outOfBounds info = false) :
    request.offset.toNat + request.length.toNat ≤ info.size.toNat ↔
      request.wrapsInside info = false := by
  have small := info.size.toNat_lt
  have passes := inside
  simp only [outOfBounds, gt_iff_lt, decide_eq_false_iff_not, UInt64.not_lt,
    UInt64.le_iff_toNat_le, toNat_sum] at passes
  simp only [wrapsInside, inside, Bool.not_false, Bool.and_true, decide_eq_false_iff_not, not_le]
  constructor
  · intro bounded
    omega
  · intro exact
    rwa [Nat.mod_eq_of_lt exact] at passes

theorem wrapsInside_of_outOfBounds (outside : request.outOfBounds info = true) :
    request.wrapsInside info = false := by
  simp [wrapsInside, outside]

end NbdRequest

open NbdRequest

namespace NbdConnection

open Traced

variable {surroundings : Surroundings} {info : ExportInfo} {request : NbdRequest}
  {history : List Effect} (flushes : Bool) {stream : Stream} (payload : Except BlockError Bytes)
  (handle : UInt64) {turns : ℕ}

theorem only_send (bytes : Bytes) :
    Only (Effect.Confined info) (perform surroundings (.send bytes)) :=
  only_request trivial

theorem only_sendReply (error : NbdError) :
    Only (Effect.Confined info) (sendReply surroundings handle error) :=
  only_send _

/-- The steps after a write: a flush where the request asks for one, and the reply. -/
theorem only_flush_sendReply :
    Only (Effect.Confined info) (do
      if flushes then
        perform surroundings .flush
      sendReply surroundings handle .ok) := by
  cases flushes with
  | false => exact only_sendReply handle .ok
  | true => exact only_bind (only_request trivial) fun _ _ _ => only_sendReply handle .ok

theorem onlyAfter_handleRead_iff :
    OnlyAfter history (Effect.Confined info) (handleRead surroundings info request) ↔
      request.wrapsInside info = false := by
  cases outside : request.outOfBounds info with
  | true =>
    simp only [handleRead, outside, if_true]
    exact iff_of_true (onlyAfter_ofOutcome _) (wrapsInside_of_outOfBounds outside)
  | false =>
    simp only [handleRead, outside, Bool.false_eq_true, if_false]
    refine (onlyAfter_bind_iff fun data => only_send _).trans ?_
    exact onlyAfter_request_iff.trans (le_size_iff outside)

theorem onlyAfter_handleTrim_iff :
    OnlyAfter history (Effect.Confined info) (handleTrim surroundings info request) ↔
      request.outOfBounds info = true ∨
        request.wrapsInside info = false ∧ info.isReadOnly = false := by
  cases outside : request.outOfBounds info with
  | true =>
    simp only [handleTrim, outside, if_true, true_or, iff_true]
    exact onlyAfter_ofOutcome _
  | false =>
    simp only [handleTrim, outside, Bool.false_eq_true, if_false, false_or]
    refine (onlyAfter_bind_iff fun _ => only_sendReply _ _).trans ?_
    exact onlyAfter_request_iff.trans (and_congr_left' (le_size_iff outside))

theorem onlyAfter_handleWriteZeroes_iff :
    OnlyAfter history (Effect.Confined info) (handleWriteZeroes surroundings info request) ↔
      info.isReadOnly = true ∨ request.wrapsInside info = false := by
  cases frozen : info.isReadOnly with
  | true =>
    simp only [handleWriteZeroes, frozen, if_true, true_or, iff_true]
    exact onlyAfter_ofOutcome _
  | false =>
    cases outside : request.outOfBounds info with
    | true =>
      simp only [handleWriteZeroes, frozen, outside, Bool.false_eq_true, if_false, if_true]
      exact iff_of_true (onlyAfter_ofOutcome _)
        (.inr (wrapsInside_of_outOfBounds outside))
    | false =>
      simp only [handleWriteZeroes, frozen, outside, Bool.false_eq_true, if_false, false_or]
      refine (onlyAfter_bind_iff fun _ => only_flush_sendReply _ _).trans ?_
      refine onlyAfter_request_iff.trans ?_
      exact (and_iff_left frozen).trans (le_size_iff outside)

theorem onlyAfter_handleWrite_iff {payload : Except BlockError Bytes}
    (complete : ∀ data, payload = .ok data → data.length = request.length.toNat) :
    OnlyAfter history (Effect.Confined info) (handleWrite surroundings info request payload) ↔
      info.isReadOnly = true ∨ request.wrapsInside info = false ∨ payload.toBool = false := by
  cases payload with
  | error failure =>
    simp only [handleWrite, Outcome.ofExcept, bind_eq, ofOutcome_error_bind, ite_self]
    exact iff_of_true (onlyAfter_ofOutcome _) (.inr (.inr rfl))
  | ok data =>
    simp only [handleWrite, Outcome.ofExcept, bind_eq, ofOutcome_ok_bind]
    cases frozen : info.isReadOnly with
    | true =>
      simp only [if_true, true_or, iff_true]
      exact onlyAfter_ofOutcome _
    | false =>
      cases outside : request.outOfBounds info with
      | true =>
        have exact := wrapsInside_of_outOfBounds outside
        simp only [Bool.false_eq_true, if_false, if_true, exact, true_or, or_true, iff_true]
        exact onlyAfter_ofOutcome _
      | false =>
        simp only [Bool.false_eq_true, if_false, false_or, Except.toBool,
          Bool.true_eq_false, or_false]
        refine (onlyAfter_bind_iff fun _ => only_flush_sendReply _ _).trans ?_
        refine onlyAfter_request_iff.trans ((and_iff_left frozen).trans ?_)
        rw [complete data rfl]
        exact le_size_iff outside

section
variable {payload : Except BlockError Bytes}
  (complete : request.command = .write → ∀ data, payload = .ok data →
    data.length = request.length.toNat)
include complete

theorem onlyAfter_handleCommand_iff :
    OnlyAfter history (Effect.Confined info) (handleCommand surroundings info request payload) ↔
      request.staysInside payload info = true := by
  unfold handleCommand staysInside
  cases kind : request.command with
  | read =>
    refine (onlyAfter_bind_iff fun _ => only_pure true).trans ?_
    rw [Bool.not_eq_true', onlyAfter_handleRead_iff]
  | write =>
    refine (onlyAfter_bind_iff fun _ => only_pure true).trans ?_
    rw [onlyAfter_handleWrite_iff (complete kind), Bool.or_eq_true, Bool.or_eq_true,
      Bool.not_eq_true', Bool.not_eq_true', or_assoc]
  | disc => exact iff_of_true (only_pure false history) rfl
  | flush =>
    refine iff_of_true (only_bind (only_request trivial) (fun _ _ _ => ?_) history) rfl
    exact only_bind (only_sendReply _ _) fun _ _ _ => only_pure true
  | trim =>
    refine (onlyAfter_bind_iff fun _ => only_pure true).trans ?_
    rw [onlyAfter_handleTrim_iff]
    cases frozen : info.isReadOnly with
    | true => simp
    | false =>
      simp only [Bool.false_eq_true, if_false, and_true, Bool.not_eq_true']
      exact or_iff_right_of_imp wrapsInside_of_outOfBounds
  | cache =>
    exact iff_of_true (only_bind (only_sendReply _ _) (fun _ _ _ => only_pure true) history) rfl
  | writeZeroes =>
    refine (onlyAfter_bind_iff fun _ => only_pure true).trans ?_
    rw [onlyAfter_handleWriteZeroes_iff, Bool.or_eq_true, Bool.not_eq_true']
  | blockStatus | resize =>
    exact iff_of_true (only_bind (only_sendReply _ _) (fun _ _ _ => only_pure true) history) rfl

theorem onlyAfter_handleRequest_iff :
    OnlyAfter history (Effect.Confined info) (handleRequest surroundings info request payload) ↔
      request.staysInside payload info = true := by
  refine (onlyAfter_recover_iff fun failure => ?_).trans (onlyAfter_handleCommand_iff complete)
  exact only_bind (only_sendReply _ _) fun _ _ _ => only_pure true

end

theorem length_of_nextRequest {rest : Stream} {payload : Except BlockError Bytes}
    (found : nextRequest stream = .ok (request, payload, rest)) (kind : request.command = .write)
    (data : Bytes) (read : payload = .ok data) : data.length = request.length.toNat := by
  obtain ⟨-, after, -, loaded⟩ := nextRequest_eq_ok found
  rw [readPayload, if_pos kind, Stream.readExact, read] at loaded
  split at loaded
  next enough =>
    cases loaded
    exact List.length_take_of_le enough
  next => cases loaded

def agreeable : Surroundings := ⟨fun _ _ _ => .ok [], fun _ _ => .ok ()⟩

theorem settles_perform (effect : Effect) : Settles (perform surroundings effect) :=
  settles_request

theorem settles_flush_sendReply :
    Settles (do
      if flushes then
        perform surroundings .flush
      sendReply surroundings handle .ok) := by
  cases flushes with
  | false => exact settles_perform _
  | true => exact settles_bind (settles_perform _) fun _ => settles_perform _

theorem settles_handleRead : Settles (handleRead surroundings info request) := by
  unfold handleRead
  split
  · exact settles_error _
  · exact settles_bind settles_request fun _ => settles_perform _

theorem settles_handleWrite :
    Settles (handleWrite surroundings info request payload) := by
  unfold handleWrite
  split
  · exact settles_bind (settles_ofExcept _) fun _ => settles_error _
  · split
    · exact settles_bind (settles_ofExcept _) fun _ => settles_error _
    · refine settles_bind (settles_ofExcept _) fun _ => settles_bind (settles_perform _) fun _ => ?_
      exact settles_flush_sendReply _ _

theorem settles_handleTrim : Settles (handleTrim surroundings info request) := by
  unfold handleTrim
  split
  · exact settles_error _
  · exact settles_bind (settles_perform _) fun _ => settles_perform _

theorem settles_handleWriteZeroes : Settles (handleWriteZeroes surroundings info request) := by
  unfold handleWriteZeroes
  split
  · exact settles_error _
  · split
    · exact settles_error _
    · exact settles_bind (settles_perform _) fun _ => settles_flush_sendReply _ _

theorem settles_handleCommand :
    Settles (handleCommand surroundings info request payload) := by
  unfold handleCommand
  cases request.command with
  | read => exact settles_bind settles_handleRead fun _ => settles_pure _
  | write => exact settles_bind (settles_handleWrite _) fun _ => settles_pure _
  | disc => exact settles_pure _
  | flush =>
    refine settles_bind (settles_perform _) fun _ => ?_
    exact settles_bind (settles_perform _) fun _ => settles_pure _
  | trim => exact settles_bind settles_handleTrim fun _ => settles_pure _
  | writeZeroes => exact settles_bind settles_handleWriteZeroes fun _ => settles_pure _
  | cache | blockStatus | resize =>
    exact settles_bind (settles_perform _) fun _ => settles_pure _

theorem handleCommand_eq_ok {payload : Except BlockError Bytes} {continues : Bool}
    (handled : (handleCommand surroundings info request payload history).1 = .ok continues) :
    continues = decide (request.command ≠ .disc) := by
  have last {first : Traced Effect BlockError Unit} {earlier : List Effect} {result : Bool}
      (ended : (first.bind (fun _ => pure true) earlier).1 = .ok result) : result = true := by
    obtain ⟨_, _, -, returned⟩ := bind_fst_eq_ok ended
    cases returned
    rfl
  unfold handleCommand at handled
  cases kind : request.command with
  | disc =>
    rw [kind] at handled
    cases handled
    rfl
  | flush =>
    rw [kind] at handled
    obtain ⟨_, _, -, replied⟩ := bind_fst_eq_ok handled
    exact last replied
  | _ =>
    rw [kind] at handled
    exact last handled

theorem handleRequest_disc (kind : request.command = .disc) :
    handleRequest surroundings info request payload history = (.ok false, []) := by
  simp [handleRequest, handleCommand, kind, recover, pure]

/-- Among those who never refuse, every request but a disconnect is followed by the next. -/
theorem handleRequest_agreeable :
    (handleRequest agreeable info request payload history).1 =
      .ok (decide (request.command ≠ .disc)) := by
  by_cases kind : request.command = .disc
  · simp [handleRequest_disc payload kind, kind]
  · refine recover_fst_eq_ok (settles_handleCommand payload) ?_ (fun _ _ => ?_) history
    · exact fun _ _ handled => handleCommand_eq_ok handled
    · simp only [kind, ne_eq, not_false_eq_true, decide_true]
      rfl

theorem only_stop (failure : BlockError) : Only (Effect.Confined info) (stop failure) := by
  unfold stop
  split
  · exact only_pure _
  · exact only_ofOutcome _

theorem only_serve
    (inside : ∀ entry ∈ requests turns stream, entry.1.staysInside entry.2 info = true) :
    Only (Effect.Confined info) (serve surroundings info turns stream) := by
  induction turns generalizing stream with
  | zero => exact only_pure _
  | succ turns ih =>
    cases found : nextRequest stream with
    | error failure =>
      simp only [serve, found]
      exact only_stop failure
    | ok next =>
      obtain ⟨request, payload, rest⟩ := next
      simp only [serve, found]
      simp only [requests, found, List.forall_mem_cons] at inside
      refine only_bind (fun history => ?_) fun history continues handled => ?_
      · exact (onlyAfter_handleRequest_iff (length_of_nextRequest found)).mpr inside.1
      · by_cases kind : request.command = .disc
        · rw [handleRequest_disc payload kind] at handled
          cases handled
          exact only_pure _
        · rw [if_neg kind] at inside
          split
          · exact ih inside.2
          · exact only_pure _

/-- Where nobody refuses, the server gets to all requests of the stream. -/
theorem staysInside_of_onlyAfter_serve
    (confined : OnlyAfter history (Effect.Confined info) (serve agreeable info turns stream)) :
    ∀ entry ∈ requests turns stream, entry.1.staysInside entry.2 info = true := by
  induction turns generalizing stream history with
  | zero => exact fun _ member => absurd member List.not_mem_nil
  | succ turns ih =>
    cases found : nextRequest stream with
    | error failure =>
      simp only [requests, found]
      exact fun _ member => absurd member List.not_mem_nil
    | ok next =>
      obtain ⟨request, payload, rest⟩ := next
      simp only [requests, found, List.forall_mem_cons]
      simp only [serve, found] at confined
      refine ⟨?_, ?_⟩
      · exact (onlyAfter_handleRequest_iff (length_of_nextRequest found)).mp confined.left
      · by_cases kind : request.command = .disc
        · rw [if_pos kind]
          exact fun _ member => absurd member List.not_mem_nil
        · have later := confined.right (handleRequest_agreeable payload)
          simp only [ne_eq, kind, not_false_eq_true, decide_true, if_true] at later
          rw [if_neg kind]
          exact ih later

/-- Whatever the volume and the client do, every call the server makes on the volume lies
within the export and is no changing one on a read-only export, if and only if no request of
the stream reaches a call with a wrapped sum or a trim on a read-only export. -/
theorem calls_confined_iff (info : ExportInfo) (stream : Stream) :
    (∀ surroundings : Surroundings,
      ∀ effect ∈ (runTransmissionLoop surroundings info stream []).2, effect.Confined info) ↔
    ∀ entry ∈ requests (stream.bytes.length + 1) stream,
      entry.1.staysInside entry.2 info = true := by
  constructor
  · intro confined
    exact staysInside_of_onlyAfter_serve (confined agreeable)
  · intro inside surroundings
    exact only_serve inside []

def requestBytes (command offset length : ℕ) : Bytes :=
  Bytes.beBytes 4 NbdRequest.magic ++ Bytes.beBytes 2 0 ++ Bytes.beBytes 2 command ++
    Bytes.beBytes 8 1 ++ Bytes.beBytes 8 offset ++ Bytes.beBytes 4 length

/-- A read whose sum wraps gets past the end of the export, and a trim gets to the volume of a
read-only export. -/
theorem read_wraps_and_trim_changes :
    let writable : ExportInfo := ⟨1048576, 0x0001⟩
    let frozen : ExportInfo := ⟨1048576, 0x0103⟩
    let wrapped := Effect.read 0xFFFFFFFFFFFFFE00 1024
    let trimmed := Effect.trim 0 4096
    (wrapped ∈ (runTransmissionLoop agreeable writable
        ⟨requestBytes 0 0xFFFFFFFFFFFFFE00 1024, .unexpectedEof⟩ []).2 ∧
      ¬ wrapped.Confined writable) ∧
    trimmed ∈ (runTransmissionLoop agreeable frozen
        ⟨requestBytes 4 0 4096, .unexpectedEof⟩ []).2 ∧
      ¬ trimmed.Confined frozen := by
  decide +kernel

end NbdConnection

end Warp.Block
