import InstructionTables.Dispatch.Basic
import InstructionTables.Event
import Std.Data.TreeMap

/-! The arrays that a payload has defined so far, in the order in which they were completed,
together with the names that the payload gives them and with what is logged about them. The main
statement says that a name leads to the first array that was added under it. -/
namespace InstructionTables.Dispatch

/-- A complete array and the name that the payload gives it. -/
structure Definition where
  reference : UInt16
  slots : Array Node
deriving DecidableEq, Repr

/-- What is logged of an array when it is complete. -/
structure Trace where
  reference : UInt16
  array : ArrayId
  /-- The number of slots that the payload announces. -/
  size : Nat
deriving DecidableEq, Repr

/-- The complete arrays, each at the position that is its id. -/
structure Arena where
  definitions : Array Definition := #[]
  /-- Where the array of a name is, so that it is found without a search. -/
  positions : Std.TreeMap UInt16 Nat := {}
  /-- What has been logged, oldest first. -/
  traced : Array Trace := #[]
  /-- A name leads to the first definition of it. -/
  positions_get? : ∀ reference, positions[reference]? =
    definitions.findIdx? fun definition => definition.reference == reference := by simp

namespace Arena

/-- The number of complete arrays. -/
def size (arena : Arena) : Nat :=
  arena.definitions.size

/-- The events of the arrays that have been logged. -/
def events (arena : Arena) : List Event :=
  arena.traced.toList.map fun trace => .arrayDefined trace.reference trace.array trace.size

/-- Adds an array that the payload announces with so many slots. It takes the next id, and this is
logged. -/
def push (arena : Arena) (definition : Definition) (size : Nat) : Arena :=
  let positions := arena.positions.insertIfNew definition.reference arena.size
  { definitions := arena.definitions.push definition
    positions
    traced := arena.traced.push ⟨definition.reference, .ofIndex arena.size, size⟩
    positions_get? := fun reference => by
      rw [Std.TreeMap.getElem?_insertIfNew, Array.findIdx?_push, ← arena.positions_get?]
      by_cases same : definition.reference = reference
      · subst same
        by_cases known : definition.reference ∈ arena.positions <;> simp [known, Arena.size]
      · simp [same] }

/-- The event of an array that is added comes after those that are there. -/
theorem events_push (arena : Arena) (definition : Definition) (size : Nat) :
    (arena.push definition size).events =
      arena.events ++ [.arrayDefined definition.reference (.ofIndex arena.size) size] := by
  rw [events, push, Array.toList_push, List.map_append]
  rfl

theorem position_lt {arena : Arena} {reference : UInt16} {position : Nat}
    (found : arena.positions[reference]? = some position) :
    position < arena.definitions.size := by
  rw [arena.positions_get?, Array.findIdx?_eq_some_iff_getElem] at found
  exact found.1

/-- The id of the array with the given name, as a position. -/
def find? (arena : Arena) (reference : UInt16) : Option (Fin arena.definitions.size) :=
  match found : arena.positions[reference]? with
  | some position => some ⟨position, position_lt found⟩
  | none => none

/-- The node of the array at a position. -/
def node (arena : Arena) (position : Fin arena.definitions.size) : Node :=
  .array (.ofIndex position) (UInt32.ofNat arena.definitions[position].slots.size)

/-- The position found is that of the first definition of the name. -/
theorem find?_eq (arena : Arena) (reference : UInt16) :
    (arena.find? reference).map Fin.val =
      arena.definitions.findIdx? fun definition => definition.reference == reference := by
  rw [← arena.positions_get?, find?]
  split <;> simp_all

end Arena

end InstructionTables.Dispatch
