import Warp.Foundation.Bytes
import Warp.Foundation.Outcome

/-! # Reading values from the front of a buffer

A reader may fail, and it panics where it takes bytes that are not there. What it accepts is a
grammar (`ByteReader.Accepts`). Grammars compose as the readers do (`ByteReader.Accepts.bind`,
`ByteReader.Accepts.times`), and a check that enough bytes remain adds nothing if what is read next
is that long (`ByteReader.Accepts.checked`).
-/

/-- A value off the front of a buffer and what remains. -/
def ByteReader (Failure Value : Type) := Bytes → Outcome Failure (Value × Bytes)

namespace ByteReader

open List Bytes

variable {Failure Value Result : Type}

protected def bind (reader : ByteReader Failure Value)
    (next : Value → ByteReader Failure Result) : ByteReader Failure Result :=
  fun bytes => (reader bytes).bind fun read => next read.1 read.2

instance : Monad (ByteReader Failure) where
  pure value bytes := .ok (value, bytes)
  bind := ByteReader.bind

/-- Fail unless so many bytes remain, then read. -/
def checked (count : ℕ) (failure : Failure) (reader : ByteReader Failure Value) :
    ByteReader Failure Value :=
  fun bytes => if bytes.length < count then .error failure else reader bytes

/-- The next bytes. -/
def take (count : ℕ) : ByteReader Failure Bytes :=
  fun bytes =>
    if bytes.length < count then .panic else .ok (bytes.take count, bytes.drop count)

/-- A number in little-endian bytes. -/
def number (width : ℕ) : ByteReader Failure ℕ := do
  let bytes ← take width
  pure (Bytes.leValue bytes)

/-- So many values, one after another. -/
def times (reader : ByteReader Failure Value) : ℕ → ByteReader Failure (List Value)
  | 0 => pure []
  | count + 1 => do
      let value ← reader
      let values ← times reader count
      pure (value :: values)

/-- A number of values, then the values. -/
def counted (width : ℕ) (reader : ByteReader Failure Value) : ByteReader Failure (List Value) := do
  let count ← number width
  times reader count

/-- A length, then so many bytes, if so many remain. -/
def block (width : ℕ) (failure : Failure) : ByteReader Failure Bytes := do
  let length ← number width
  checked length failure (take length)

/-- Turn what was read into another value, or fail. -/
def convert (translated : Except Failure Value) : ByteReader Failure Value :=
  fun bytes => Outcome.ofExcept (translated.map fun value => (value, bytes))

/-- A reader accepts exactly the bytes that a grammar gives for a value, and leaves what
follows them. -/
def Accepts (reader : ByteReader Failure Value) (grammar : Value → Bytes → Prop) : Prop :=
  ∀ bytes value rest, reader bytes = .ok (value, rest) ↔
    ∃ used, grammar value used ∧ bytes = used ++ rest

variable {reader : ByteReader Failure Value} {grammar : Value → Bytes → Prop} (width : ℕ)
  (count : ℕ)

theorem bind_apply (reader : ByteReader Failure Value)
    (next : Value → ByteReader Failure Result) (bytes : Bytes) :
    (reader >>= next) bytes = (reader bytes).bind fun read => next read.1 read.2 := rfl

theorem accepts_pure (value : Value) :
    Accepts (pure value : ByteReader Failure Value) fun read used => read = value ∧ used = [] := by
  intro bytes read rest
  change Outcome.ok (value, bytes) = .ok (read, rest) ↔ _
  simp [Prod.ext_iff, eq_comm]

section
variable (accepts : Accepts reader grammar)
include accepts

theorem Accepts.bind {next : Value → ByteReader Failure Result}
    {continuation : Value → Result → Bytes → Prop}
    (continues : ∀ value, Accepts (next value) (continuation value)) :
    Accepts (reader >>= next) fun result used =>
      ∃ value first second, grammar value first ∧ continuation value result second ∧
        used = first ++ second := by
  intro bytes result rest
  rw [bind_apply, Outcome.bind_eq_ok_iff]
  constructor
  · rintro ⟨⟨value, middle⟩, read, continued⟩
    obtain ⟨first, isFirst, rfl⟩ := (accepts bytes value middle).mp read
    obtain ⟨second, isSecond, rfl⟩ := (continues value middle result rest).mp continued
    exact ⟨first ++ second, ⟨value, first, second, isFirst, isSecond, rfl⟩, (append_assoc ..).symm⟩
  · rintro ⟨_, ⟨value, first, second, isFirst, isSecond, rfl⟩, rfl⟩
    refine ⟨(value, second ++ rest), ?_, ?_⟩
    · exact (accepts _ _ _).mpr ⟨first, isFirst, append_assoc ..⟩
    · exact (continues value _ _ _).mpr ⟨second, isSecond, rfl⟩

theorem Accepts.congr {other : Value → Bytes → Prop}
    (same : ∀ value used, grammar value used ↔ other value used) : Accepts reader other := by
  intro bytes value rest
  simp only [accepts bytes value rest, same]

theorem Accepts.map (build : Value → Result) :
    Accepts (do let value ← reader; pure (build value)) fun result used =>
      ∃ value, grammar value used ∧ result = build value := by
  apply (accepts.bind fun value => accepts_pure (build value)).congr
  intro result used
  constructor
  · rintro ⟨value, _, _, isUsed, ⟨rfl, rfl⟩, rfl⟩
    rw [append_nil]
    exact ⟨value, isUsed, rfl⟩
  · rintro ⟨value, isUsed, rfl⟩
    exact ⟨value, _, [], isUsed, ⟨rfl, rfl⟩, (append_nil _).symm⟩

theorem Accepts.checked {count : ℕ} (long : ∀ value used, grammar value used → count ≤ used.length)
    (failure : Failure) :
    Accepts (checked count failure reader) grammar := by
  intro bytes value rest
  rw [← accepts bytes value rest, ByteReader.checked]
  split
  · rename_i short
    refine ⟨fun failed => by contradiction, fun read => ?_⟩
    obtain ⟨used, isUsed, rfl⟩ := (accepts bytes value rest).mp read
    have := long value used isUsed
    rw [length_append] at short
    omega
  · rfl

end

theorem accepts_take :
    Accepts (take count : ByteReader Failure Bytes) fun value used =>
      value.length = count ∧ used = value := by
  intro bytes value rest
  unfold take
  split
  · rename_i short
    refine ⟨fun failed => by contradiction, ?_⟩
    rintro ⟨_, ⟨length, rfl⟩, rfl⟩
    rw [length_append] at short
    omega
  · rename_i enough
    rw [Outcome.ok.injEq, Prod.mk.injEq]
    constructor
    · rintro ⟨rfl, rfl⟩
      exact ⟨_, ⟨length_take_of_le (Nat.le_of_not_lt enough), rfl⟩, (take_append_drop ..).symm⟩
    · rintro ⟨_, ⟨rfl, rfl⟩, rfl⟩
      exact ⟨take_left, drop_left⟩

theorem accepts_number :
    Accepts (number width : ByteReader Failure ℕ) fun value used =>
      value < 256 ^ width ∧ used = leBytes width value := by
  apply ((accepts_take width).map leValue).congr
  intro value used
  constructor
  · rintro ⟨_, ⟨rfl, rfl⟩, rfl⟩
    exact ⟨leValue_lt used, (leBytes_leValue used).symm⟩
  · rintro ⟨fits, rfl⟩
    exact ⟨_, ⟨length_leBytes .., rfl⟩, (leValue_leBytes width value fits).symm⟩

theorem accepts_number_as {width : ℕ} {ofNat : ℕ → Value} {toNat : Value → ℕ}
    (bounded : ∀ value, toNat value < 256 ^ width) (inverse : ∀ value, ofNat (toNat value) = value)
    (exact : ∀ number < 256 ^ width, toNat (ofNat number) = number) :
    Accepts (do let value ← number width; pure (ofNat value) : ByteReader Failure Value)
      fun value used => used = leBytes width (toNat value) := by
  apply ((accepts_number width).map ofNat).congr
  intro value used
  constructor
  · rintro ⟨number, ⟨fits, rfl⟩, rfl⟩
    rw [exact number fits]
  · rintro rfl
    exact ⟨toNat value, ⟨bounded value, rfl⟩, (inverse value).symm⟩

section
variable {fits : Value → Prop} {write : Value → Bytes}
  (accepts : Accepts reader fun value used => fits value ∧ used = write value)
include accepts

/-- A reader of values that are each written in one way reads lists of them. -/
theorem Accepts.times :
    Accepts (times reader count) fun values used =>
      values.length = count ∧ (∀ value ∈ values, fits value) ∧ used = values.flatMap write := by
  induction count with
  | zero =>
    apply (accepts_pure []).congr
    intro values used
    constructor
    · rintro ⟨rfl, rfl⟩
      exact ⟨rfl, fun _ member => absurd member not_mem_nil, rfl⟩
    · rintro ⟨length, -, rfl⟩
      obtain rfl := eq_nil_of_length_eq_zero length
      exact ⟨rfl, rfl⟩
  | succ count ih =>
    apply (accepts.bind fun value => ih.map (value :: ·)).congr
    intro values used
    constructor
    · rintro ⟨value, _, _, ⟨fit, rfl⟩, ⟨rest, ⟨rfl, all, rfl⟩, rfl⟩, rfl⟩
      exact ⟨rfl, forall_mem_cons.mpr ⟨fit, all⟩, flatMap_cons.symm⟩
    · rintro ⟨length, all, rfl⟩
      cases values with
      | nil => contradiction
      | cons value rest =>
        obtain ⟨fit, all⟩ := forall_mem_cons.mp all
        exact ⟨value, _, _, ⟨fit, rfl⟩, ⟨rest, ⟨Nat.succ.inj length, all, rfl⟩, rfl⟩, flatMap_cons⟩

theorem Accepts.counted :
    Accepts (counted width reader) fun values used =>
      (values.length < 256 ^ width ∧ ∀ value ∈ values, fits value) ∧
        used = leBytes width values.length ++ values.flatMap write := by
  apply ((accepts_number width).bind accepts.times).congr
  intro values used
  constructor
  · rintro ⟨_, _, _, ⟨fit, rfl⟩, ⟨rfl, all, rfl⟩, rfl⟩
    exact ⟨⟨fit, all⟩, rfl⟩
  · rintro ⟨⟨fit, all⟩, rfl⟩
    exact ⟨_, _, _, ⟨fit, rfl⟩, ⟨rfl, all, rfl⟩, rfl⟩

end

theorem accepts_block (failure : Failure) :
    Accepts (block width failure) fun value used =>
      value.length < 256 ^ width ∧ used = leBytes width value.length ++ value := by
  have taken (length : ℕ) := (accepts_take length).checked
    (fun value used grammar => (grammar.1.symm.trans (congrArg List.length grammar.2.symm)).le)
    failure
  apply ((accepts_number width).bind taken).congr
  intro value used
  constructor
  · rintro ⟨_, _, _, ⟨fit, rfl⟩, ⟨rfl, rfl⟩, rfl⟩
    exact ⟨fit, rfl⟩
  · rintro ⟨fit, rfl⟩
    exact ⟨_, _, _, ⟨fit, rfl⟩, ⟨rfl, rfl⟩, rfl⟩

theorem accepts_convert (translated : Except Failure Value) :
    Accepts (convert translated) fun value used => translated = .ok value ∧ used = [] := by
  intro bytes value rest
  cases translated with
  | error failure => simp [convert, Outcome.ofExcept, Except.map]
  | ok result => simp [convert, Outcome.ofExcept, Except.map]

end ByteReader
