import InstructionTables.Hexadecimal
import InstructionTables.Payload.Kind

/-! Why a payload is refused. A fault is a cause with the place where it shows; its wording
is decided here and nowhere else. -/
namespace InstructionTables

/-- What a dangling reference was meant to name. -/
inductive RefTarget where
  | handler
  | array
deriving DecidableEq, Repr

/-- The target as a message names it. -/
def RefTarget.text : RefTarget → String
  | handler => "handler"
  | array => "array"

/-- Why a template record is refused. -/
inductive Malformed where
  /-- A record that repeats the current template comes before any template. -/
  | noCurrentTemplate
  /-- The payload ends inside the record. -/
  | truncated
  /-- The record emits more templates than there are instruction ids left. -/
  | tooManyTemplates (emitted left : Nat)
  /-- The stored operand width is none of 16, 32 and 64 bits. -/
  | invalidWidth (bits : UInt32)
  /-- The stored number of siblings is zero or too large. -/
  | invalidVariantCount (count : UInt32)
deriving DecidableEq, Repr

/-- The wording of a refusal. -/
def Malformed.message : Malformed → String
  | noCurrentTemplate => "no current template to fold from"
  | truncated => "read pattern runs past the end of the stream"
  | tooManyTemplates emitted left =>
    s!"emits {emitted} templates but only {left} instruction ids are left"
  | invalidWidth bits => s!"invalid operand width {bits}"
  | invalidVariantCount count => s!"invalid variant count {count}"

/-- Why a payload is refused. Offsets count bytes from the start of the payload. -/
inductive Fault where
  /-- The payload ends too early; `needed` more bytes were asked for at `offset`. -/
  | truncated (offset needed : Nat)
  /-- A byte is no tag of the type called `label`. -/
  | invalidTag (label : String) (value : UInt8) (offset : Nat)
  /-- A variable-length number does not fit 32 bits. -/
  | invalidVarint (offset : Nat)
  /-- A reference names something that does not exist. -/
  | danglingReference (target : RefTarget) (id : UInt32) (offset : Nat)
  /-- An array is defined under a reference that is already taken. -/
  | duplicateArray (reference : UInt16) (offset : Nat)
  /-- Arrays are nested deeper than `limit` fields can select. -/
  | tooDeep (limit offset : Nat)
  /-- A template record starting at `offset` under the tag called `tag` is refused. -/
  | malformedRecord (offset : Nat) (tag : String) (reason : Malformed)
  /-- Bytes are left over after the last record. -/
  | trailingData (offset length : Nat)
  /-- The header does not start a payload at all. -/
  | badMagic (found : UInt16)
  /-- The payload is made for another consumer. -/
  | wrongPayloadKind (expected : PayloadKind) (found : UInt8)
  /-- The payload has another format version. -/
  | unsupportedVersion (expected found : UInt8)
deriving DecidableEq, Repr

/-- Outcomes are compared by their values or their faults. -/
instance decidableEqOutcome {α : Type} [DecidableEq α] : DecidableEq (Except Fault α)
  | .ok left, .ok right => decidable_of_iff (left = right) (by simp)
  | .error left, .error right => decidable_of_iff (left = right) (by simp)
  | .ok _, .error _ => isFalse nofun
  | .error _, .ok _ => isFalse nofun

open Hexadecimal in
/-- The wording of a fault. -/
def Fault.message : Fault → String
  | truncated offset needed =>
    s!"Truncated stream at offset {text offset}, need {needed} more bytes"
  | invalidTag label value offset => s!"Invalid {label} tag {value} at offset {text offset}"
  | invalidVarint offset => s!"Invalid varint at offset {text offset}"
  | danglingReference target id offset =>
    s!"Dangling {target.text} reference {id} at offset {text offset}"
  | duplicateArray reference offset =>
    s!"Array {reference} defined twice, second definition at offset {text offset}"
  | tooDeep limit offset =>
    s!"Dispatch array at offset {text offset} nested deeper than {limit} levels"
  | malformedRecord offset tag reason =>
    s!"Malformed template stream at offset {text offset} ({tag}): {reason.message}"
  | trailingData offset length => s!"{length} trailing bytes at offset {text offset}"
  | badMagic found => s!"Invalid payload magic {text found.toNat 4}"
  | wrongPayloadKind expected found =>
    s!"Expected a {expected.text} payload, found kind {found}"
  | unsupportedVersion expected found =>
    s!"Unsupported payload version {found}, expected {expected}"

end InstructionTables
