import InstructionTables.Identifier
import InstructionTables.Payload.Cursor
import InstructionTables.Payload.Item

/-! The records of a dispatch payload. A payload lists its slots in the order of a walk
that visits every array's slots right after the array itself; each slot is one record. -/
namespace InstructionTables.Dispatch

/-- The tag byte of a record. -/
inductive RecordTag where
  | handlerReference
  | arrayReference
deriving DecidableEq, Repr

instance : Tag RecordTag where
  values := [.handlerReference, .arrayReference]
  ordinal := RecordTag.ctorIdx
  name
    | .handlerReference => "HandlerReference"
    | .arrayReference => "ArrayReference"
  complete tag := by cases tag <;> decide
  dense := by decide
  label := "SerializedDataKind"
  fits := by decide

/-- What a payload stores for a slot. -/
inductive Record where
  /-- The slot holds a handler. -/
  | handler (id : UInt16)
  /-- The slot holds the array called `reference`. With a size other than zero the record
  defines the array, and the records of its slots follow; with size zero the array is one
  defined before. -/
  | array (size : UInt32) (reference : UInt16)
deriving DecidableEq, Repr

namespace Record

/-- The items that a record is written as. -/
def items : Record → List Item
  | handler id => [.tag RecordTag.handlerReference, .reference id]
  | array size reference => [.tag RecordTag.arrayReference, .varint size, .reference reference]

/-- Reads one record. -/
def read : Read Record := do
  match ← Read.tag RecordTag with
  | .handlerReference => return .handler (← Read.reference)
  | .arrayReference =>
    let size ← Read.varint
    let reference ← Read.reference
    return .array size reference

/-- The fewest bytes that a record takes: a tag and a reference. -/
def minSize : Nat := 3

end Record

end InstructionTables.Dispatch
