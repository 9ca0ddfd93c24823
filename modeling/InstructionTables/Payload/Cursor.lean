import InstructionTables.Payload.Header
import InstructionTables.Varint

/-! Reading a payload from front to back. A cursor is a position together with the bytes
that follow it, and a read either yields a value and moves the cursor past it or fails and
says why. Only a byte that is no tag is passed over by the read that refuses it; every
other failing read leaves the cursor where it was. -/
namespace InstructionTables

/-- A place in a payload. -/
structure Cursor where
  /-- The number of bytes before this place. -/
  offset : Nat
  /-- The bytes from this place on. -/
  rest : List UInt8
deriving DecidableEq, Repr

namespace Cursor

/-- The number of bytes left. -/
def remaining (cursor : Cursor) : Nat :=
  cursor.rest.length

/-- Whether no byte is left. -/
def atEnd (cursor : Cursor) : Bool :=
  cursor.rest.isEmpty

/-- Whether at least `count` bytes are left. No byte beyond them is looked at. -/
def holds (cursor : Cursor) : Nat → Bool
  | 0 => true
  | count + 1 => !(cursor.rest.drop count).isEmpty

theorem holds_iff {cursor : Cursor} {count : Nat} :
    cursor.holds count ↔ count ≤ cursor.remaining := by
  cases count with
  | zero => exact ⟨fun _ => Nat.zero_le _, fun _ => rfl⟩
  | succ count =>
    rw [holds, Bool.not_eq_true', List.isEmpty_eq_false_iff, ne_eq, List.drop_eq_nil_iff, remaining]
    omega

/-- The place `count` bytes further on. -/
def advance (cursor : Cursor) (count : Nat) : Cursor :=
  ⟨cursor.offset + count, cursor.rest.drop count⟩

/-- The place just past the header of a payload of the expected kind. -/
def afterHeader (payload : List UInt8) (expected : PayloadKind) : Except Fault Cursor :=
  match Header.ofBytes? payload with
  | none => .error (.truncated 0 (Header.size - payload.length))
  | some header => do
    header.check expected
    pure ⟨Header.size, payload.drop Header.size⟩

end Cursor

/-- A read from a cursor, which is kept also when the read fails. -/
abbrev Read := EStateM Fault Cursor

namespace Read

/-- Where the next read starts. -/
def offset : Read Nat :=
  return (← get).offset

/-- One byte. -/
def byte : Read UInt8 := fun cursor =>
  match cursor.rest with
  | [] => .error (.truncated cursor.offset 1) cursor
  | value :: _ => .ok value (cursor.advance 1)

/-- One byte that has to be a tag of the given type. -/
def tag (α : Type) [Tag α] : Read α := do
  let start ← offset
  let value ← byte
  match Tag.ofByte? value with
  | some found => pure found
  | none => throw (.invalidTag (Tag.label α) value start)

/-- A variable-length number. -/
def varint : Read UInt32 := fun cursor =>
  match Varint.decode cursor.rest with
  | .value value length => .ok value (cursor.advance length)
  | .incomplete => .error (.truncated (cursor.offset + cursor.remaining) 1) cursor
  | .overflow => .error (.invalidVarint cursor.offset) cursor

/-- A two-byte reference, its lower byte first. -/
def reference : Read UInt16 := fun cursor =>
  match cursor.rest with
  | low :: high :: _ => .ok (low.toUInt16 ||| (high.toUInt16 <<< 8)) (cursor.advance 2)
  | _ => .error (.truncated cursor.offset (2 - cursor.remaining)) cursor

/-- Fails when bytes are left. -/
def finish : Read Unit := fun cursor =>
  if cursor.atEnd then .ok () cursor
  else .error (.trailingData cursor.offset cursor.remaining) cursor

/-- The same read, with another account of its failures. -/
def mapFault {α : Type} (change : Fault → Fault) (read : Read α) : Read α := fun cursor =>
  match read.run cursor with
  | .ok value after => .ok value after
  | .error fault after => .error (change fault) after

end Read

end InstructionTables
