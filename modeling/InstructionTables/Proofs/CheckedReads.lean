import InstructionTables.Proofs.ParallelRuns
import InstructionTables.Proofs.ReadSpelling

/-! Reads that check what they do. A word of 64 bits has no room for some sums, no byte stands
behind the end of a payload, and a number loses its upper bits in a shorter word. A checked step
stops where an operation has no exact result, and says which operation it was; that is no fault
of the payload. The reads of this module never stop that way, as long as the length of the payload
fits a signed word, and end as the ordinary reads do. Room for elements is counted in bytes, and
there is no room for more of them than a signed word counts. -/
namespace InstructionTables.Checked

variable {σ τ α : Type}

/-! ## Operations -/

/-- An operation that does not have an exact result everywhere. -/
inductive Operation where
  /-- A reader moves to a place between the header and the end of its payload. -/
  | move
  /-- Bytes are cut out of a payload. -/
  | slice
  /-- An element of a sequence is looked up. -/
  | element
  /-- Room is made for elements, which take no more bytes than a signed word counts. -/
  | reserve
  /-- A template takes the next id, where a word of 32 bits has one left. -/
  | identify
  /-- Two words of 64 bits are added. -/
  | add
  /-- A number is subtracted from one that is not smaller. -/
  | subtract
  /-- A word of 32 bits is shifted. -/
  | shift
  /-- A number is kept in fewer bits. -/
  | narrow
  /-- A slot is read, below fewer fields than a walk may need. -/
  | nest
  /-- A loop goes round again. -/
  | iterate
deriving DecidableEq, Repr

/-- Why a checked step stops. -/
inductive Stop where
  /-- The payload is refused. -/
  | fault (fault : Fault)
  /-- An operation has no exact result. -/
  | undefined (operation : Operation)
deriving DecidableEq, Repr

/-- A step that checks every operation. -/
abbrev Step (σ : Type) := EStateM Stop σ

/-- Stops unless the operation has an exact result. -/
def require (operation : Operation) (exact : Prop) [Decidable exact] : Step σ Unit :=
  if exact then return () else throw (.undefined operation)

def add (left right : Nat) : Step σ Nat := do
  require .add (left + right < 2 ^ 64)
  return left + right

def subtract (left right : Nat) : Step σ Nat := do
  require .subtract (right ≤ left)
  return left - right

def shiftLeft (value : UInt32) (distance : Nat) : Step σ UInt32 := do
  require .shift (distance < 32)
  return value <<< UInt32.ofNat distance

def narrow8 (value : Nat) : Step σ UInt8 := do
  require .narrow (value < 2 ^ 8)
  return UInt8.ofNat value

def narrow32 (value : Nat) : Step σ UInt32 := do
  require .narrow (value < 2 ^ 32)
  return UInt32.ofNat value

/-- Makes room for elements of the given width in bytes. -/
def reserve (width count : Nat) : Step σ Unit :=
  require .reserve (width * count < 2 ^ 63)

/-- Makes room for one more element behind `size` others. A sequence that is full gets room for
twice as many elements, and for four at least. -/
def grow (width size : Nat) : Step σ Unit :=
  reserve width (max 4 (2 * size))

/-- The element that was found where one has to be. -/
def element : Option α → Step σ α
  | some value => return value
  | none => throw (.undefined .element)

def slice (bytes : List UInt8) (first last : Nat) : Step σ (List UInt8) := do
  require .slice (first ≤ last ∧ last ≤ bytes.length)
  return (bytes.drop first).take (last - first)

section Operations

variable {left right value distance width count size first last : Nat} {bytes : List UInt8}

theorem require_of {operation : Operation} {exact : Prop} [Decidable exact] (holds : exact) :
    (require operation exact : Step σ Unit) = pure () :=
  if_pos holds

theorem add_of_lt (fits : left + right < 2 ^ 64) :
    (add left right : Step σ Nat) = pure (left + right) := by
  rw [add, require_of fits, pure_bind]

theorem subtract_of_le (within : right ≤ left) :
    (subtract left right : Step σ Nat) = pure (left - right) := by
  rw [subtract, require_of within, pure_bind]

theorem shiftLeft_of_lt {value : UInt32} (within : distance < 32) :
    (shiftLeft value distance : Step σ UInt32) = pure (value <<< UInt32.ofNat distance) := by
  rw [shiftLeft, require_of within, pure_bind]

theorem narrow32_of_lt (fits : value < 2 ^ 32) :
    (narrow32 value : Step σ UInt32) = pure (UInt32.ofNat value) := by
  rw [narrow32, require_of fits, pure_bind]

theorem reserve_of_lt (fits : width * count < 2 ^ 63) :
    (reserve width count : Step σ Unit) = pure () :=
  require_of fits

theorem grow_of_lt (least : width * 4 < 2 ^ 63) (fits : width * (2 * size) < 2 ^ 63) :
    (grow width size : Step σ Unit) = pure () := by
  apply reserve_of_lt
  rw [← Nat.mul_max_mul_left]
  exact max_lt least fits

theorem slice_of_le (inside : first ≤ last ∧ last ≤ bytes.length) :
    (slice bytes first last : Step σ (List UInt8)) =
      pure ((bytes.drop first).take (last - first)) := by
  rw [slice, require_of inside, pure_bind]

end Operations

/-! ## Readers -/

variable {payload : List UInt8}

/-- A place between the header and the end of a payload. -/
structure Reader (payload : List UInt8) where
  offset : Nat
  inside : Header.size ≤ offset ∧ offset ≤ payload.length

namespace Reader

/-- The place with the bytes that follow it. -/
def cursor (reader : Reader payload) : Cursor :=
  ⟨reader.offset, payload.drop reader.offset⟩

/-- The place `count` bytes further on. -/
def advance (reader : Reader payload) (count : Nat)
    (fits : reader.offset + count ≤ payload.length) : Reader payload :=
  ⟨reader.offset + count, Nat.le_trans reader.inside.1 (Nat.le_add_right _ _), fits⟩

theorem cursor_advance {reader : Reader payload} {count : Nat}
    (fits : reader.offset + count ≤ payload.length) :
    (reader.advance count fits).cursor = reader.cursor.advance count := by
  simp only [cursor, advance, Cursor.advance, List.drop_drop]

theorem remaining_cursor (reader : Reader payload) :
    reader.cursor.remaining = payload.length - reader.offset :=
  List.length_drop

/-- Bytes that follow a place end within the payload. -/
theorem fits_of_rest {reader : Reader payload} {bytes rest : List UInt8}
    (split : reader.cursor.rest = bytes ++ rest) :
    reader.offset + bytes.length ≤ payload.length := by
  have lengths := reader.remaining_cursor
  have inside := reader.inside.2
  rw [Cursor.remaining, split, List.length_append] at lengths
  omega

end Reader

/-! ## Reads -/

def offset : Step (Reader payload) Nat :=
  return (← get).offset

def moveTo (offset : Nat) : Step (Reader payload) Unit := fun reader =>
  if inside : Header.size ≤ offset ∧ offset ≤ payload.length then .ok () ⟨offset, inside⟩
  else .error (.undefined .move) reader

/-- The number of bytes left. -/
def remaining : Step (Reader payload) Nat := do
  subtract payload.length (← offset)

/-- The given number of bytes. -/
def take (count : Nat) : Step (Reader payload) (List UInt8) := do
  if (← remaining) < count then
    throw (.fault (.truncated (← offset) (← subtract count (← remaining))))
  else
    let bytes ← slice payload (← offset) (← add (← offset) count)
    moveTo (← add (← offset) count)
    return bytes

def byte : Step (Reader payload) UInt8 := do
  element (← take 1)[0]?

def tag (α : Type) [Tag α] : Step (Reader payload) α := do
  let start ← offset
  let value ← byte
  match Tag.ofByte? value with
  | some found => return found
  | none => throw (.fault (.invalidTag (Tag.label α) value start))

/-- Reads on at a position of a number, where the groups before it sum to `value`. The number
stands in so many bytes, of which those that it may take follow. -/
def decodeFrom (length position : Nat) (value : UInt32) : List UInt8 → Step σ Varint.Decoded
  | [] => return if Varint.maxLength ≤ length then .overflow else .incomplete
  | byte :: rest => do
    let bits := (byte &&& 0x7f).toUInt32
    if position = Varint.maxLength - 1 ∧ 0x0f < bits then
      return .overflow
    else
      let shifted ← shiftLeft bits (7 * position)
      let value := value ||| shifted
      if byte &&& 0x80 = 0 then
        return .value value (position + 1)
      else
        decodeFrom length (position + 1) value rest

/-- Reads the number at the start of a list of bytes. -/
def decode (bytes : List UInt8) : Step σ Varint.Decoded :=
  decodeFrom bytes.length 0 0 (bytes.take Varint.maxLength)

def varint : Step (Reader payload) UInt32 := do
  match ← decode (← slice payload (← offset) payload.length) with
  | .value value length =>
    moveTo (← add (← offset) length)
    return value
  | .incomplete => throw (.fault (.truncated payload.length 1))
  | .overflow => throw (.fault (.invalidVarint (← offset)))

def reference : Step (Reader payload) UInt16 := do
  let bytes ← take 2
  let low ← element bytes[0]?
  let high ← element bytes[1]?
  return low.toUInt16 ||| (high.toUInt16 <<< 8)

def finish : Step (Reader payload) Unit := do
  if (← offset) = payload.length then return ()
  else throw (.fault (.trailingData (← offset) (← remaining)))

/-- The place behind the header of a payload of the expected kind. -/
def afterHeader (payload : List UInt8) (expected : PayloadKind) : Step σ (Reader payload) :=
  if short : payload.length < Header.size then do
    throw (.fault (.truncated 0 (← subtract Header.size payload.length)))
  else do
    let first ← element payload[0]?
    let second ← element payload[1]?
    let third ← element payload[2]?
    let fourth ← element payload[3]?
    let header : Header := ⟨first.toUInt32 ||| (second.toUInt32 <<< 8) |||
      (third.toUInt32 <<< 16) ||| (fourth.toUInt32 <<< 24)⟩
    match header.check expected with
    | .ok () => return ⟨Header.size, Nat.le_refl _, Nat.le_of_not_lt short⟩
    | .error fault => throw (.fault fault)

/-! ### Numbers -/

/-- The groups of a number are shifted by less than the width of a word. -/
theorem decodeFrom_eq {position groups : Nat} {value : UInt32} {bytes : List UInt8}
    (total : position + groups = Varint.maxLength) :
    decodeFrom (position + bytes.length) position value (bytes.take groups) =
      (pure (Varint.decodeGroups groups value bytes) : Step σ Varint.Decoded) := by
  induction groups generalizing position value bytes with
  | zero =>
    have all : Varint.maxLength ≤ position + bytes.length := by omega
    rw [List.take_zero, decodeFrom, if_pos all, Varint.decodeGroups]
  | succ groups ih =>
    have five : Varint.maxLength = 5 := rfl
    cases bytes with
    | nil =>
      have ended : ¬Varint.maxLength ≤ position + 0 := by omega
      rw [List.take_nil, decodeFrom, List.length_nil, if_neg ended, Varint.decodeGroups]
    | cons byte rest =>
      have last : position = Varint.maxLength - 1 ↔ groups = 0 := by omega
      have place : Varint.maxLength - (groups + 1) = position := by omega
      have within : 7 * position < 32 := by omega
      have length : position + (byte :: rest).length = position + 1 + rest.length := by
        rw [List.length_cons]
        omega
      simp only [List.take_succ_cons, decodeFrom, Varint.decodeGroups, last, place,
        shiftLeft_of_lt within, pure_bind, length]
      split
      · rfl
      · split
        · rfl
        · exact ih (by omega)

theorem decode_eq (bytes : List UInt8) :
    (decode bytes : Step σ Varint.Decoded) = pure (Varint.decode bytes) := by
  have whole : decodeFrom (0 + bytes.length) 0 0 (bytes.take Varint.maxLength) =
      (pure (Varint.decode bytes) : Step σ Varint.Decoded) := decodeFrom_eq (Nat.zero_add _)
  rwa [Nat.zero_add] at whole

/-! ### Single reads -/

theorem offset_run (reader : Reader payload) : offset.run reader = .ok reader.offset reader :=
  rfl

theorem remaining_run (reader : Reader payload) :
    remaining.run reader = .ok (payload.length - reader.offset) reader := by
  rw [remaining, EStateM.run_bind, offset_run]
  simp only [subtract_of_le reader.inside.2]
  rfl

theorem moveTo_run {reader : Reader payload} {count : Nat}
    (fits : reader.offset + count ≤ payload.length) :
    (moveTo (reader.offset + count)).run reader = .ok () (reader.advance count fits) :=
  dif_pos (reader.advance count fits).inside

theorem take_run {reader : Reader payload} {count : Nat} (addressable : payload.length < 2 ^ 63)
    (fits : reader.offset + count ≤ payload.length) :
    (take count).run reader =
      .ok (reader.cursor.rest.take count) (reader.advance count fits) := by
  have enough : ¬payload.length - reader.offset < count := by omega
  have sum : reader.offset + count < 2 ^ 64 := by omega
  have inside : reader.offset ≤ reader.offset + count ∧ reader.offset + count ≤ payload.length :=
    ⟨Nat.le_add_right _ _, fits⟩
  simp only [take, EStateM.run_bind, remaining_run, if_neg enough, offset_run, add_of_lt sum,
    slice_of_le inside, EStateM.run_pure, moveTo_run fits, Nat.add_sub_cancel_left, Reader.cursor]

theorem take_run_short {reader : Reader payload} {count : Nat}
    (short : payload.length < reader.offset + count) :
    (take count).run reader =
      .error (.fault (.truncated reader.offset (count - (payload.length - reader.offset))))
        reader := by
  have missing : payload.length - reader.offset < count := by
    have inside := reader.inside.2
    omega
  simp only [take, EStateM.run_bind, remaining_run, if_pos missing, offset_run,
    subtract_of_le missing.le, EStateM.run_pure]
  rfl

/-! ### Side by side with the ordinary reads -/

/-- A checked read at the same place ends in the same way. -/
def reading (payload : List UInt8) : Pairing Cursor (Reader payload) Fault Stop where
  states cursor reader := cursor = reader.cursor
  faults fault stop := stop = .fault fault
  opens _ := False

section Keeps

theorem keeps_offset : (reading payload).Keeps Eq Read.offset offset := by
  rintro _ reader rfl
  exact .ok rfl rfl

variable (addressable : payload.length < 2 ^ 63)
include addressable

theorem keeps_byte : (reading payload).Keeps Eq Read.byte byte := by
  rintro _ reader rfl
  rw [byte, EStateM.run_bind, EStateM.run, Read.byte]
  cases rest : reader.cursor.rest with
  | nil =>
    have ended : payload.length ≤ reader.offset := List.drop_eq_nil_iff.mp rest
    simp only [take_run_short (by omega : payload.length < reader.offset + 1),
      Nat.sub_eq_zero_of_le ended]
    exact .error rfl
  | cons value later =>
    have split : reader.cursor.rest = [value] ++ later := rest
    have fits : reader.offset + 1 ≤ payload.length := Reader.fits_of_rest split
    simp only [take_run addressable fits, rest]
    exact .ok rfl (reader.cursor_advance fits).symm

theorem keeps_tag (α : Type) [Tag α] : (reading payload).Keeps Eq (Read.tag α) (tag α) := by
  apply keeps_offset.bind_eq
  intro start
  apply (keeps_byte addressable).bind_eq
  intro value
  cases Tag.ofByte? (α := α) value with
  | some found => exact Pairing.keeps_pure rfl
  | none => exact Pairing.keeps_throw rfl

theorem keeps_reference : (reading payload).Keeps Eq Read.reference reference := by
  rintro _ reader rfl
  have left := reader.remaining_cursor
  rw [reference, EStateM.run_bind, EStateM.run, Read.reference]
  rcases rest : reader.cursor.rest with _ | ⟨low, _ | ⟨high, later⟩⟩
  case cons.cons =>
    have split : reader.cursor.rest = [low, high] ++ later := rest
    have fits : reader.offset + 2 ≤ payload.length := Reader.fits_of_rest split
    simp only [take_run addressable fits, rest]
    exact .ok rfl (Reader.cursor_advance fits).symm
  all_goals
    have short : payload.length < reader.offset + 2 := by
      rw [Cursor.remaining, rest] at left
      simp only [List.length_cons, List.length_nil] at left
      omega
    simp only [take_run_short short, left]
    exact .error rfl

theorem keeps_varint : (reading payload).Keeps Eq Read.varint varint := by
  rintro _ reader rfl
  have inside := reader.inside.2
  have whole : (payload.drop reader.offset).take (payload.length - reader.offset) =
      reader.cursor.rest := by
    rw [← List.length_drop, List.take_length]
    rfl
  simp only [varint, EStateM.run_bind, offset_run, slice_of_le ⟨inside, Nat.le_refl _⟩, whole,
    decode_eq, EStateM.run_pure]
  rw [EStateM.run, Read.varint]
  cases decoded : Varint.decode reader.cursor.rest with
  | value value length =>
    obtain ⟨bytes, rest, split, -, rfl⟩ := Varint.decode_eq_value_iff.mp decoded
    have fits := Reader.fits_of_rest split
    have sum : reader.offset + bytes.length < 2 ^ 64 := by omega
    simp only [EStateM.run_bind, offset_run, add_of_lt sum, EStateM.run_pure, moveTo_run fits]
    exact .ok rfl (Reader.cursor_advance fits).symm
  | incomplete =>
    have ended : reader.offset + reader.cursor.remaining = payload.length := by
      rw [reader.remaining_cursor, Nat.add_sub_cancel' inside]
    refine .error ?_
    rw [← ended]
    rfl
  | overflow => exact .error rfl

end Keeps

/-- How far a checked build has come. -/
structure State (payload : List UInt8) (σ : Type) where
  reader : Reader payload
  made : σ

/-- A read from the payload as a step of a build. -/
def ofRead (read : Step (Reader payload) α) : Step (State payload σ) α := fun state =>
  match read.run state.reader with
  | .ok value reader => .ok value { state with reader }
  | .error stop reader => .error stop { state with reader }

/-- The same build, where the payload has to end with it. -/
def toEnd (build : Step (State payload σ) α) : Step (State payload σ) α := do
  let value ← build
  ofRead finish
  return value

/-- What a build yields on a payload of the given kind. -/
def run (build : Step (State payload σ) α) (kind : PayloadKind) (nothing : σ) :
    Except Stop α :=
  match (afterHeader payload kind).run () with
  | .error stop _ => .error stop
  | .ok reader _ => Build.outcome ((toEnd build).run ⟨reader, nothing⟩)

/-- A checked build at the same place that has made the same ends in the same way. -/
def building (payload : List UInt8) (made : σ → τ → Prop) :
    Pairing (Build.State σ) (State payload τ) Fault Stop where
  states state checked := state.cursor = checked.reader.cursor ∧ made state.made checked.made
  faults fault stop := stop = .fault fault
  opens _ := False

section Builds

variable {made : σ → τ → Prop} {β : Type} {values : α → β → Prop}

theorem ofRead_run {read : Step (Reader payload) α} {state : State payload σ} {value : α}
    {after : Reader payload} (ran : read.run state.reader = .ok value after) :
    (ofRead read).run state = .ok value { state with reader := after } := by
  rw [EStateM.run, ofRead, ran]

theorem keeps_ofRead {read : Read α} {checked : Step (Reader payload) β}
    (keeps : (reading payload).Keeps values read checked) :
    (building payload made).Keeps values (Build.ofRead read) (ofRead checked) := by
  intro state beside paired
  have ended := keeps state.cursor beside.reader paired.1
  rw [EStateM.run, EStateM.run, Build.ofRead, ofRead]
  generalize read.run state.cursor = left, checked.run beside.reader = right at ended
  cases ended with
  | ok related after => exact .ok related ⟨after, paired.2⟩
  | error related => exact .error related
  | opened opened => exact opened.elim

end Builds

end InstructionTables.Checked
