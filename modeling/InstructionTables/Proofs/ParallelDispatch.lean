import InstructionTables.Dispatch.Build
import InstructionTables.Proofs.ParallelRuns

/-! Two builds of a dispatch table side by side. The builds may differ in how they check for room
and for handlers, and the second one may read other names for the arrays. Where the single steps
of the two keep to a pairing, the slots, the arrays and the whole tables that are made of these
steps keep to it too. -/
namespace InstructionTables.Dispatch

/-- The record with another name for its array. -/
def Record.rename (change : UInt16 → UInt16) : Record → Record
  | handler id => handler id
  | array size reference => array size (change reference)

theorem Record.rename_id (record : Record) : record.rename id = record := by
  cases record <;> rfl

/-- The single steps of two builds keep to a pairing, where an array that the first build calls
by a name is called by the changed name in the second. -/
structure StepsKeep (pairing : Pairing (Build.State Arena) (Build.State Arena))
    (change : UInt16 → UInt16) (check other : RoomCheck) (config beside : Config) : Prop where
  slotCount : config.slotCount = beside.slotCount
  invalidHandler : config.invalidHandler = beside.invalidHandler
  offset : pairing.Keeps Eq (Build.ofRead Read.offset) (Build.ofRead Read.offset)
  record : pairing.Keeps (fun record renamed => renamed = record.rename change)
    (Build.ofRead Record.read) (Build.ofRead Record.read)
  handler : ∀ id start, pairing.Keeps Eq (config.requireHandler id start)
    (beside.requireHandler id start)
  room : ∀ slots, pairing.Keeps Eq (check.run slots) (other.run slots)
  share : ∀ reference start, pairing.Keeps Eq (Arena.share reference start)
    (Arena.share (change reference) start)
  fresh : ∀ reference start, pairing.Keeps Eq (Arena.requireFresh reference start)
    (Arena.requireFresh (change reference) start)
  define : ∀ reference size slots, pairing.Keeps Eq (Arena.define reference size slots)
    (Arena.define (change reference) size slots)
  tooDeep : ∀ start, pairing.faults (.tooDeep maxDepth start) (.tooDeep maxDepth start)
  arrays : ∀ state twin, pairing.states state twin →
    state.made.definitions.map Definition.slots = twin.made.definitions.map Definition.slots

namespace StepsKeep

variable {pairing : Pairing (Build.State Arena) (Build.State Arena)} {change : UInt16 → UInt16}
variable {check other : RoomCheck} {config beside : Config}

theorem readSlots {readSlot twin : Build Arena Node} (keeps : pairing.Keeps Eq readSlot twin)
    (count : Nat) (slots : Array Node) :
    pairing.Keeps Eq (readSlots readSlot count slots) (readSlots twin count slots) := by
  induction count generalizing slots with
  | zero => exact Pairing.keeps_pure rfl
  | succ count ih =>
    apply keeps.bind_eq
    intro slot
    exact ih (slots.push slot)

theorem readArray (steps : StepsKeep pairing change check other config beside)
    {readSlot twin : Build Arena Node} (keeps : pairing.Keeps Eq readSlot twin)
    (size : Nat) (reference : UInt16) (start : Nat) :
    pairing.Keeps Eq (readArray check readSlot size reference start)
      (readArray other twin size (change reference) start) := by
  apply (steps.fresh reference start).bind_eq
  intro _
  apply (steps.room size).bind_eq
  intro _
  apply (readSlots keeps size #[]).bind_eq
  intro slots
  apply (steps.fresh reference start).bind_eq
  intro _
  exact steps.define reference size slots

theorem readSlot (steps : StepsKeep pairing change check other config beside)
    {readNested twin : Nat → UInt16 → Nat → Build Arena Node}
    (keeps : ∀ size reference start, pairing.Keeps Eq (readNested size reference start)
      (twin size (change reference) start)) :
    pairing.Keeps Eq (readSlot config readNested) (readSlot beside twin) := by
  apply steps.offset.bind_eq
  intro start
  apply steps.record.bind
  rintro record _ rfl
  cases record with
  | handler id =>
    apply (steps.handler id start).bind_eq
    intro handler
    exact Pairing.keeps_pure rfl
  | array size reference =>
    simp only [Record.rename]
    by_cases shared : size = 0
    · rw [if_pos shared, if_pos shared]
      exact steps.share reference start
    · rw [if_neg shared, if_neg shared]
      exact keeps size.toNat reference start

theorem readNode (steps : StepsKeep pairing change check other config beside) (levels : Nat) :
    pairing.Keeps Eq (readNode check config levels) (readNode other beside levels) := by
  induction levels with
  | zero =>
    apply steps.readSlot
    intro size reference start
    exact Pairing.keeps_throw (steps.tooDeep start)
  | succ levels ih =>
    apply steps.readSlot
    exact steps.readArray ih

theorem readTable (steps : StepsKeep pairing change check other config beside) :
    pairing.Keeps Eq (readTable check config) (readTable other beside) := by
  rw [Dispatch.readTable, Dispatch.readTable, ← steps.slotCount, ← steps.invalidHandler]
  apply (steps.handler config.invalidHandler.value 0).bind_eq
  intro invalidHandler
  apply (steps.room config.slotCount).bind_eq
  intro _
  apply (readSlots (steps.readNode (maxDepth - 1)) config.slotCount #[]).bind_eq
  intro roots state twin paired
  refine .ok ?_ paired
  rw [steps.arrays state twin paired]

end StepsKeep

end InstructionTables.Dispatch
