import InstructionTables.Identifier

/-! Dispatch tables. A table resolves an opcode, given as a sequence of fields, by walking
from its root slots through nested arrays: each field selects a slot, and a slot names
either the handler that ends the walk or the array in which the next field selects. -/
namespace InstructionTables.Dispatch

/-- The content of a slot. -/
inductive Node where
  /-- The walk ends at this handler. -/
  | handler (id : HandlerId)
  /-- The next field selects among the `width` slots of this array. -/
  | array (id : ArrayId) (width : UInt32)
deriving DecidableEq, Repr

/-- A dispatch table. Arrays are stored once in an arena, however often they are shared. -/
structure Table where
  /-- The slots that the first field selects from. -/
  roots : Array Node
  /-- The slots of every array, by its id. -/
  arrays : Array (Array Node)
  /-- The handler of every opcode outside the table. -/
  invalidHandler : HandlerId
deriving DecidableEq, Repr

namespace Table

/-- The content of a root slot, if there is one. -/
def root? (table : Table) (slot : Nat) : Option Node :=
  table.roots[slot]?

/-- The slots of an array, if the arena holds it. -/
def children? (table : Table) (id : ArrayId) : Option (Array Node) :=
  table.arrays[id.index]?

/-- Walks from the given slots. The walk leads to the invalid handler when a field is
outside its array or the fields end before a handler is reached, and fields after a
handler do not matter. There is no answer only where a slot names an array that the arena
does not hold. -/
def walk? (table : Table) (slots : Array Node) : List Nat → Option HandlerId
  | [] => some table.invalidHandler
  | field :: fields =>
    match slots[field]? with
    | none => some table.invalidHandler
    | some (.handler id) => some id
    | some (.array id _) =>
      match table.children? id with
      | none => none
      | some slots => walk? table slots fields

/-- The handler that a sequence of fields selects, as long as every array that the walk
meets is in the arena. -/
def lookup? (table : Table) (fields : List Nat) : Option HandlerId :=
  table.walk? table.roots fields

/-- The handler that a sequence of fields selects. -/
def lookup (table : Table) (fields : List Nat) : HandlerId :=
  (table.lookup? fields).getD table.invalidHandler

end Table

end InstructionTables.Dispatch
