import InstructionTables.Build
import InstructionTables.Dispatch.Arena
import InstructionTables.Dispatch.Record

/-! Building a dispatch table from a payload. The payload lists the slots of the table in
the order of a walk, and an array takes its id when the last of its slots has been read.
The names that a payload gives its arrays only serve to share them: a name is defined once,
and used again only after its array is complete. -/
namespace InstructionTables.Dispatch

/-- What the opcode map says about a table, and the payload does not. -/
structure Config where
  /-- The number of root slots. -/
  slotCount : Nat
  /-- The number of handlers; every handler has to be below it. -/
  handlerCount : Nat
  /-- The handler of every opcode outside the table. -/
  invalidHandler : HandlerId := {}
deriving DecidableEq, Repr

/-- The most fields that a walk may need. -/
def maxDepth : Nat := 8

/-- Accepts a handler that exists. -/
def Config.requireHandler (config : Config) (id : UInt16) (start : Nat) :
    Build Arena HandlerId :=
  if id.toNat < config.handlerCount then
    return ⟨id⟩
  else
    throw (.danglingReference .handler id.toUInt32 start)

/-! ## Room for slots -/

/-- When a build finds out that the payload is too short for the slots it announces. -/
inductive RoomCheck where
  /-- Before the first of the slots is read. -/
  | upFront
  /-- When the payload ends. -/
  | whenMissing
deriving DecidableEq, Repr

/-- The fewest bytes that so many slots take, as far as a 64-bit word can say. -/
def room (slots : Nat) : Nat :=
  min (slots * Record.minSize) 0xffffffffffffffff

/-- Fails if the bytes that are left cannot hold so many slots. -/
def requireRoom (slots : Nat) : Build Arena Unit := fun state =>
  let cursor := state.cursor
  if cursor.holds (room slots) then .ok () state
  else .error (.truncated cursor.offset (room slots - cursor.remaining)) state

/-- Checks the room for slots if the check is due before they are read. -/
def RoomCheck.run : RoomCheck → Nat → Build Arena Unit
  | upFront, slots => requireRoom slots
  | whenMissing, _ => return ()

/-! ## Arrays -/

namespace Arena

/-- The node of an array that is complete already. -/
def share (reference : UInt16) (start : Nat) : Build Arena Node := fun state =>
  match state.made.find? reference with
  | some position => .ok (state.made.node position) state
  | none => .error (.danglingReference .array reference.toUInt32 start) state

/-- Fails if a name is defined already. -/
def requireFresh (reference : UInt16) (start : Nat) : Build Arena Unit := fun state =>
  if (state.made.find? reference).isSome then .error (.duplicateArray reference start) state
  else .ok () state

/-- Adds a complete array that is announced with so many slots. -/
def define (reference : UInt16) (size : Nat) (slots : Array Node) : Build Arena Node :=
  fun state =>
    .ok (.array (.ofIndex state.made.size) (UInt32.ofNat size))
      { state with made := state.made.push ⟨reference, slots⟩ size }

end Arena

/-! ## Slots -/

/-- Reads the given number of slots after those that have been read. -/
def readSlots (readSlot : Build Arena Node) : Nat → Array Node → Build Arena (Array Node)
  | 0, slots => return slots
  | count + 1, slots => do readSlots readSlot count (slots.push (← readSlot))

/-- Reads an array whose slots are read by `readSlot`. The name has to be fresh both before
and after its slots, since one of them may define it too. -/
def readArray (check : RoomCheck) (readSlot : Build Arena Node) (size : Nat)
    (reference : UInt16) (start : Nat) : Build Arena Node := do
  Arena.requireFresh reference start
  check.run size
  let slots ← readSlots readSlot size #[]
  Arena.requireFresh reference start
  Arena.define reference size slots

/-- Reads a slot, where an array that the slot defines is read by `readNested`. -/
def readSlot (config : Config)
    (readNested : (size : Nat) → (reference : UInt16) → (start : Nat) → Build Arena Node) :
    Build Arena Node := do
  let start ← Build.ofRead Read.offset
  match ← Build.ofRead Record.read with
  | .handler id => return .handler (← config.requireHandler id start)
  | .array size reference =>
    if size = 0 then Arena.share reference start
    else readNested size.toNat reference start

/-- Reads a slot below which so many levels of arrays may be nested. -/
def readNode (check : RoomCheck) (config : Config) : Nat → Build Arena Node
  | 0 => readSlot config fun _ _ start => throw (.tooDeep maxDepth start)
  | levels + 1 => readSlot config (readArray check (readNode check config levels))

/-! ## Tables -/

/-- Reads the slots of a whole table. -/
def readTable (check : RoomCheck) (config : Config) : Build Arena Table := do
  let invalidHandler ← config.requireHandler config.invalidHandler.value 0
  check.run config.slotCount
  let roots ← readSlots (readNode check config (maxDepth - 1)) config.slotCount #[]
  return { roots, arrays := (← Build.made).definitions.map Definition.slots, invalidHandler }

namespace Table

/-- The event of a complete table. -/
def completion (table : Table) (bytes : Nat) : Event :=
  .dispatchBuilt table.roots.size table.arrays.size bytes

/-- Builds a table from a payload. When the payload is too short for the slots that it
announces, `check` decides when that is found out. -/
def buildWith (check : RoomCheck) (payload : List UInt8) (config : Config) : Report Table :=
  (readTable check config).report .decoder payload {} Arena.events completion

/-- Builds a table from a payload. No room is made for slots that the payload cannot hold. -/
def build (payload : List UInt8) (config : Config) : Report Table :=
  buildWith .upFront payload config

/-- The table that a payload describes. -/
def ofBytes (payload : List UInt8) (config : Config) : Except Fault Table :=
  (build payload config).result

end Table

end InstructionTables.Dispatch
