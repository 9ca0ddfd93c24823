import InstructionTables.Payload.Cursor
import InstructionTables.Payload.Item
import InstructionTables.Template.Basic

/-! The records of a template payload. A record either repeats the current template, with
its operands reversed or not, or describes a family of templates that differ in their
variant and size only. -/
namespace InstructionTables.Template

/-! ## Families -/

/-- A record that describes templates of its own. -/
structure Family where
  /-- The tag of the record, which is no fold. -/
  kind : Kind
  mnemonic : MnemonicRef
  operands : List OperandRef
  /-- The size that the record stores, if its kind stores one. -/
  size : OperandSize := .unmarked
  /-- The number of templates in the family. -/
  count : Nat
deriving DecidableEq, Repr

namespace Family

/-- The variants of a family and their sizes. A family that its kind spreads over sizes has
one variant for each of them, and any other gives its own size to every variant. -/
def siblings (family : Family) : List (UInt8 × OperandSize) :=
  match family.kind.shape.emission with
  | .sizes listed => listed.mapIdx fun position size => (UInt8.ofNat position, size)
  | _ => (List.range family.count).map fun position => (UInt8.ofNat position, family.size)

/-- The templates of a family whose first one has the given position in the table. -/
def templates (family : Family) (first : Nat) : List Template :=
  family.siblings.mapIdx fun position (variant, size) =>
    { id := .ofIndex (first + position)
      kind := family.kind
      mnemonic := family.mnemonic
      variant
      size
      operands := family.operands
      flags := family.kind.shape.flags }

/-- The items that every family record starts with. -/
def openingItems (kind : Kind) (mnemonic : MnemonicRef) (operands : List OperandRef) :
    List Item :=
  .tag kind :: .reference mnemonic.value :: operands.map fun operand => .reference operand.value

/-- The items that a family is written as. -/
def items (family : Family) : List Item :=
  openingItems family.kind family.mnemonic family.operands ++
    (if family.kind.shape.hasWidth then [.varint (family.size.width?.getD 0)] else []) ++
    (if family.kind.emissionCount?.isNone then [.varint (UInt32.ofNat family.count)] else [])

/-! ### Reading -/

/-- The fault of a record of the given kind that starts at `start`. -/
def refuse (kind : Kind) (start : Nat) (reason : Malformed) : Fault :=
  .malformedRecord start (Ordinal.name kind) reason

/-- Reads the given number of operands. -/
def readOperands : Nat → Read (List OperandRef)
  | 0 => return []
  | count + 1 => do
    let operand ← Read.reference
    let operands ← readOperands count
    return ⟨operand⟩ :: operands

/-- Reads the operand width of a record. -/
def readSize (kind : Kind) (start : Nat) : Read OperandSize := do
  let bits ← Read.varint
  match OperandSize.ofWidth? bits with
  | some size => return size
  | none => throw (refuse kind start (.invalidWidth bits))

/-- Reads the number of templates that a record emits. -/
def readCount (kind : Kind) (start : Nat) : Read Nat := do
  let count ← Read.varint
  if count = 0 ∨ Emission.maxStoredCount < count then
    throw (refuse kind start (.invalidVariantCount count))
  else
    return count.toNat

/-- Reads what a record of the given kind stores after its tag. -/
def readBody (kind : Kind) (start : Nat) : Read Family := do
  let mnemonic ← Read.reference
  let operands ← readOperands kind.shape.operands
  let size ← if kind.shape.hasWidth then readSize kind start else pure .unmarked
  let count ← match kind.emissionCount? with
    | some count => pure count
    | none => readCount kind start
  return { kind, mnemonic := ⟨mnemonic⟩, operands, size, count }

/-- A payload that ends inside a record is a fault of that record. -/
def blameRecord (kind : Kind) (start : Nat) : Fault → Fault
  | .truncated _ _ => refuse kind start .truncated
  | fault => fault

end Family

/-! ## Records -/

/-- A record of a template payload. -/
inductive Record where
  /-- The current template once more. -/
  | previous
  /-- The current template with its operands reversed. -/
  | reverse
  /-- Templates of its own. -/
  | family (family : Family)
deriving DecidableEq, Repr

namespace Record

/-- The items that a record is written as. -/
def items : Record → List Item
  | previous => [.tag Kind.previous]
  | reverse => [.tag Kind.reverse]
  | family described => described.items

/-- Reads one record. -/
def read : Read Record := do
  let start ← Read.offset
  let kind ← Read.tag Kind
  match kind.shape.emission with
  | .previous => return .previous
  | .reverse => return .reverse
  | _ => return .family (← (Family.readBody kind start).mapFault (Family.blameRecord kind start))

end Record

end InstructionTables.Template
