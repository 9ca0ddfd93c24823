import InstructionTables.Payload.Header
import InstructionTables.Varint

/-! Writing a payload. Its body is a sequence of items, each of which stands for its bytes
on its own, so that the bytes of a sequence are those of its items in order. -/
namespace InstructionTables

/-- A piece of a payload body. -/
inductive Item where
  /-- A single byte. -/
  | byte (value : UInt8)
  /-- A variable-length number. -/
  | varint (value : UInt32)
  /-- A two-byte reference. -/
  | reference (id : UInt16)
deriving DecidableEq, Repr

namespace Item

/-- The byte of a tag. -/
def tag {α : Type} [Tag α] (value : α) : Item :=
  .byte (Tag.byte value)

/-- The bytes of one item. -/
def encode : Item → List UInt8
  | byte value => [value]
  | varint value => Varint.encode value
  | reference id => [id.toUInt8, (id >>> 8).toUInt8]

/-- The bytes of items in order. -/
def encodeAll (items : List Item) : List UInt8 :=
  items.flatMap encode

@[simp] theorem encodeAll_nil : encodeAll [] = [] := rfl

@[simp] theorem encodeAll_cons (item : Item) (items : List Item) :
    encodeAll (item :: items) = item.encode ++ encodeAll items := rfl

@[simp] theorem encodeAll_append (left right : List Item) :
    encodeAll (left ++ right) = encodeAll left ++ encodeAll right :=
  List.flatMap_append

end Item

/-- A whole payload: a header and the items after it. -/
def Header.payload (header : Header) (items : List Item) : List UInt8 :=
  header.toBytes ++ Item.encodeAll items

end InstructionTables
