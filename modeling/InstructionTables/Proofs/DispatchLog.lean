import InstructionTables.Proofs.DispatchArena
import InstructionTables.Proofs.DispatchFaults
import InstructionTables.Proofs.LoggedBuilds

/-! What the build of a dispatch table logs. Every array is told when the last of its slots has been
read, so that the arrays inside it are told before it, and the log follows the ids. If the payload
is accepted, the log tells the arrays of the forest that it lists. If it is refused, the arrays that
are complete by then are those of the slots that can be read, also where the fault is deep inside
arrays that never come to their end. `Completes` says how far slots can be read. It is shown from
both sides: a run ends with arrays that can be read, and it leaves out none of them. -/
namespace InstructionTables.Dispatch

open Build (endState Grows)

variable {config : Config} {complete reached : List (UInt16 × Forest)}

/-! ## Events of arrays -/

theorem traces_level {event : Event} (member : event ∈ traces complete) : event.level = .trace := by
  obtain ⟨position, inside, rfl⟩ := List.mem_mapIdx.mp member
  rfl

/-- Every complete array has been logged under its name and id, with as many slots as were read for
it. -/
theorem Arena.Holds.events_definitions {arena : Arena} (held : arena.Holds complete) :
    arena.events = arena.definitions.toList.mapIdx fun position definition =>
      .arrayDefined definition.reference (.ofIndex position) definition.slots.size := by
  rw [held.events, held.definitions, traces]
  apply List.ext_getElem?
  intro position
  simp only [List.getElem?_mapIdx, List.getElem?_map, Option.map_map, Function.comp_def,
    List.size_toArray, Forest.nodes_length]

/-! ## Steps -/

section Steps

variable {readSlot : Build Arena Node}

end Steps

/-! ## Arrays that are read -/

/-- Behind `start`, where `count` slots start below which `levels` arrays may be nested and where
the arrays in `complete` are complete, slots can be read until those in `reached` are. -/
inductive Completes (config : Config) : (levels count : Nat) →
    (complete : List (UInt16 × Forest)) → (start : Cursor) →
    (reached : List (UInt16 × Forest)) → Prop where
  /-- Some of the slots can be read, or all of them. -/
  | here {levels count : Nat} {complete : List (UInt16 × Forest)} {start place : Cursor}
      {done : Forest} :
      done.width ≤ count → done.Fits config levels (complete.map Prod.fst) →
      start.Spans done.items place →
      Completes config levels count complete start (complete ++ done.arrays)
  /-- Behind them an array is opened, and some of its slots can be read. -/
  | inside {levels count : Nat} {complete reached : List (UInt16 × Forest)} {size : UInt32}
      {reference : UInt16} {start outer first : Cursor} {done : Forest} :
      done.width < count → done.Fits config (levels + 1) (complete.map Prod.fst) →
      start.Spans done.items outer →
      outer.Spans (Record.array size reference).items first → size ≠ 0 →
      reference ∉ (complete ++ done.arrays).map Prod.fst →
      room size.toNat ≤ first.remaining →
      Completes config levels size.toNat (complete ++ done.arrays) first reached →
      Completes config (levels + 1) count complete start reached

section Slots

variable {before after : Build.State Arena} {fault : Fault}

end Slots

/-! ## Whole payloads -/

/-- The slots of a payload are looked at: the header is right, the handler of opcodes outside the
table exists, and there is room for the slots. -/
structure Opens (payload : List UInt8) (config : Config) (start : Cursor) : Prop where
  header : Cursor.afterHeader payload .decoder = .ok start
  invalidHandler : config.invalidHandler.value.toNat < config.handlerCount
  room : room config.slotCount ≤ start.remaining

/-- What the log of a payload tells that is refused. -/
inductive FailureLog (payload : List UInt8) (config : Config) : List Event → Prop where
  /-- No slot is looked at. -/
  | unopened : (∀ start, ¬ Opens payload config start) → FailureLog payload config []
  /-- The arrays that can be read until they are complete, and all of those. -/
  | slots {start : Cursor} {reached : List (UInt16 × Forest)} : Opens payload config start →
      Completes config (maxDepth - 1) config.slotCount [] start reached →
      (∀ other, Completes config (maxDepth - 1) config.slotCount [] start other →
        traces other <+: traces reached) →
      FailureLog payload config (traces reached)

theorem FailureLog.level (failure : FailureLog payload config log) :
    ∀ event ∈ log, event.level = .trace := by
  cases failure with
  | unopened => nofun
  | slots => exact fun event => traces_level

/-- The first slot of an array defines another array, which is told. The second slot is missing. -/
example : (Table.build [0x01, 0x00, 0xed, 0x1c, 0x01, 0x02, 0x40, 0x00,
    0x01, 0x01, 0x07, 0x00, 0x00, 0x02, 0x00] ⟨1, 3, {}⟩).log = [.arrayDefined 7 ⟨0⟩ 1] := by
  decide +kernel

end InstructionTables.Dispatch
