import InstructionTables.Proofs.CheckedReads
import InstructionTables.Proofs.DispatchForest

/-! Building a dispatch table with every operation checked. The build keeps its arrays and the ids
of their names apart, as a program does that looks an array up by its id, and stops where an id or
a width does not fit its word, where an id leads out of the arena, where a slot is read too deep, or
where slots take too many bytes. On a payload whose length fits a signed word it only does so for
the last reason, and only for the slots of the root. Otherwise it yields what the ordinary build
yields. -/
namespace InstructionTables.Dispatch.Checked
open InstructionTables.Checked

variable {payload : List UInt8}

/-! ## The build -/

/-- A node takes twelve bytes: its kind, and an id and a width of four bytes each. -/
def nodeBytes : Nat := 12

/-- An array is kept as the place and the number of its nodes, in eight bytes each. -/
def arrayBytes : Nat := 16

/-- The arrays that are complete, and the ids that they have under their names. -/
structure Arrays where
  arrays : Array (Array Node) := #[]
  ids : Std.TreeMap UInt16 ArrayId := {}

/-- A step of the build. -/
abbrev Building (payload : List UInt8) := Step (State payload Arrays)

def requireHandler (config : Config) (id : UInt16) (start : Nat) : Building payload HandlerId :=
  if id.toNat < config.handlerCount then
    return ⟨id⟩
  else
    throw (.fault (.danglingReference .handler id.toUInt32 start))

/-- Fails if the bytes that are left cannot hold so many slots, and makes room for them if they
can. -/
def requireRoom (slots : Nat) : Building payload Unit := do
  let left ← ofRead remaining
  if left < room slots then
    throw (.fault (.truncated (← ofRead offset) (← subtract (room slots) left)))
  else
    reserve nodeBytes slots

/-- The node of an array that is complete already. -/
def share (reference : UInt16) (start : Nat) : Building payload Node := do
  let made := (← get).made
  match made.ids[reference]? with
  | some array =>
    let slots ← element made.arrays[array.index]?
    return .array array (← narrow32 slots.size)
  | none => throw (.fault (.danglingReference .array reference.toUInt32 start))

def requireFresh (reference : UInt16) (start : Nat) : Building payload Unit := do
  if ((← get).made.ids[reference]?).isSome then
    throw (.fault (.duplicateArray reference start))

/-- Adds a complete array under the next id if its name is still fresh. -/
def define (reference : UInt16) (size : UInt32) (slots : Array Node) (start : Nat) :
    Building payload Node := do
  let made := (← get).made
  let array : ArrayId := ⟨← narrow32 made.arrays.size⟩
  requireFresh reference start
  grow arrayBytes made.arrays.size
  modify fun state =>
    { state with made := ⟨made.arrays.push slots, made.ids.insert reference array⟩ }
  return .array array size

def readSlots (readSlot : Building payload Node) : Nat → Array Node → Building payload (Array Node)
  | 0, slots => return slots
  | count + 1, slots => do readSlots readSlot count (slots.push (← readSlot))

def readArray (readSlot : Building payload Node) (size : UInt32) (reference : UInt16)
    (start : Nat) : Building payload Node := do
  requireFresh reference start
  requireRoom size.toNat
  let slots ← readSlots readSlot size.toNat #[]
  define reference size slots start

def readRecord : Step (Reader payload) Record := do
  match ← tag RecordTag with
  | .handlerReference => return .handler (← reference)
  | .arrayReference =>
    let size ← varint
    let name ← reference
    return .array size name

def readSlot (config : Config)
    (readNested : (size : UInt32) → (reference : UInt16) → (start : Nat) → Building payload Node) :
    Building payload Node := do
  let start ← ofRead offset
  match ← ofRead readRecord with
  | .handler id => return .handler (← requireHandler config id start)
  | .array size reference =>
    if size = 0 then share reference start
    else readNested size reference start

/-- Reads a slot below `depth` fields. -/
def readNode (config : Config) (depth : Nat) : Building payload Node := do
  require .nest (depth < maxDepth)
  readSlot config fun size reference start =>
    if deep : maxDepth ≤ depth + 1 then throw (.fault (.tooDeep maxDepth start))
    else readArray (readNode config (depth + 1)) size reference start
termination_by maxDepth - depth

def readTable (config : Config) : Building payload Table := do
  let invalidHandler ← requireHandler config config.invalidHandler.value 0
  requireRoom config.slotCount
  let roots ← readSlots (readNode config 0) config.slotCount #[]
  return { roots, arrays := (← get).made.arrays, invalidHandler }

/-- The table that a payload describes, unless an operation has no exact result. -/
def ofBytes (payload : List UInt8) (config : Config) : Except Stop Table :=
  run (readTable config : Building payload Table) .decoder {}

/-! ## The arenas -/

/-- The arrays of an arena, in which no two have the same name. -/
structure Matches (arena : Arena) (made : Arrays) : Prop where
  arrays : made.arrays = arena.definitions.map Definition.slots
  ids : ∀ reference : UInt16,
    made.ids[reference]? = ((arena.find? reference).map Fin.val).map ArrayId.ofIndex
  distinct : (arena.definitions.toList.map Definition.reference).Nodup
  /-- The number of slots of an array has been read from 32 bits. -/
  widths : ∀ definition ∈ arena.definitions, definition.slots.size < 2 ^ 32

namespace Matches

variable {arena : Arena} {made : Arrays}

theorem nothing : Matches {} {} where
  arrays := Array.map_empty.symm
  ids _ := rfl
  distinct := List.nodup_nil
  widths _ member := absurd member (Array.not_mem_empty _)

theorem size_eq (same : Matches arena made) : made.arrays.size = arena.size := by
  rw [same.arrays, Array.size_map, Arena.size]

/-- An array for each name is not more than a word of 32 bits can count. -/
theorem size_le (same : Matches arena made) : arena.size ≤ 2 ^ 16 := by
  have bound := length_le_of_nodup same.distinct
  rwa [List.length_map] at bound

theorem isSome_ids (same : Matches arena made) (reference : UInt16) :
    made.ids[reference]?.isSome = (arena.find? reference).isSome := by
  rw [same.ids, Option.isSome_map, Option.isSome_map]

/-- The id of a name leads to the array that has the name. -/
theorem slots_eq (same : Matches arena made) (position : Fin arena.definitions.size) :
    made.arrays[(ArrayId.ofIndex position.val).index]? =
      arena.definitions[position.val]?.map Definition.slots := by
  have small : position.val < 2 ^ 16 := position.isLt.trans_le same.size_le
  rw [index_ofIndex small, same.arrays, Array.getElem?_map]

theorem push {reference : UInt16} {slots : Array Node} {size : Nat} (same : Matches arena made)
    (fresh : arena.find? reference = none) (width : slots.size < 2 ^ 32) :
    Matches (arena.push ⟨reference, slots⟩ size)
      ⟨made.arrays.push slots, made.ids.insert reference (.ofIndex arena.size)⟩ where
  arrays := by rw [same.arrays, Arena.push, Array.map_push]
  ids name := by
    have unknown :
        (arena.definitions.findIdx? fun definition => definition.reference == reference) = none := by
      rw [← Arena.find?_eq, fresh, Option.map_none]
    have named := same.ids name
    rw [Arena.find?_eq] at named ⊢
    rw [Std.TreeMap.getElem?_insert, Arena.push, Array.findIdx?_push, named]
    by_cases this : reference = name
    · subst this
      simp [unknown, Arena.size]
    · simp [this]
  distinct := by
    have unknown : reference ∉ arena.definitions.toList.map Definition.reference := by
      rw [← Option.map_eq_none_iff (f := Fin.val), Arena.find?_eq,
        Array.findIdx?_eq_none_iff] at fresh
      rintro member
      obtain ⟨definition, listed, rfl⟩ := List.mem_map.mp member
      simpa using fresh definition (Array.mem_toList_iff.mp listed)
    rw [Arena.push, Array.toList_push, List.map_append]
    exact List.Nodup.append same.distinct (List.nodup_singleton _) (by simpa using unknown)
  widths definition member := by
    rcases Array.mem_push.mp member with old | rfl
    · exact same.widths definition old
    · exact width

end Matches

/-! ## Side by side with the ordinary build -/

section Keeps

variable {config : Config}

theorem keeps_requireHandler (id : UInt16) (start : Nat) : (building payload Matches).Keeps Eq
    (config.requireHandler id start) (requireHandler config id start) := by
  rw [Config.requireHandler, requireHandler]
  split
  · exact Pairing.keeps_pure rfl
  · exact Pairing.keeps_throw rfl

theorem keeps_share (reference : UInt16) (start : Nat) : (building payload Matches).Keeps Eq
    (Arena.share reference start) (share reference start) := by
  rintro ⟨cursor, arena⟩ ⟨reader, made⟩ ⟨cursorEq, same⟩
  have named := same.ids reference
  rw [EStateM.run, Arena.share, share, EStateM.run_bind, EStateM.run_get]
  cases found : arena.find? reference with
  | none =>
    rw [found, Option.map_none, Option.map_none] at named
    simp only [named]
    exact .error rfl
  | some position =>
    rw [found, Option.map_some, Option.map_some] at named
    have width := same.widths _ (Array.getElem_mem position.isLt)
    simp only [named, same.slots_eq position, Array.getElem?_eq_getElem position.isLt,
      Option.map_some, element, pure_bind, narrow32_of_lt width]
    exact .ok rfl ⟨cursorEq, same⟩

theorem requireFresh_run (reference : UInt16) (start : Nat) (state : State payload Arrays) :
    (requireFresh reference start).run state =
      if state.made.ids[reference]?.isSome then
        .error (.fault (.duplicateArray reference start)) state
      else .ok () state := by
  rw [requireFresh, EStateM.run_bind, EStateM.run_get]
  dsimp only
  split <;> rfl

theorem keeps_requireFresh (reference : UInt16) (start : Nat) :
    (building payload Matches).Keeps Eq (Arena.requireFresh reference start)
      (requireFresh reference start) := by
  rintro ⟨cursor, arena⟩ ⟨reader, made⟩ ⟨cursorEq, same⟩
  rw [requireFresh_run, EStateM.run, Arena.requireFresh, same.isSome_ids]
  split
  · exact .error rfl
  · exact .ok rfl ⟨cursorEq, same⟩

/-- A fresh name keeps the arrays apart, so that there is an id for the new one. -/
theorem keeps_define {slots : Array Node} {size : UInt32} (width : slots.size = size.toNat)
    (reference : UInt16) (start : Nat) : (building payload Matches).Keeps Eq
      (do Arena.requireFresh reference start; Arena.define reference size.toNat slots)
      (define reference size slots start) := by
  rintro ⟨cursor, arena⟩ ⟨reader, made⟩ ⟨cursorEq, same⟩
  have bound : arena.size ≤ 2 ^ 16 := same.size_le
  have fits : arena.size < 2 ^ 32 := by omega
  have grown : (grow arrayBytes arena.size : Building payload Unit) = pure () :=
    grow_of_lt (by decide) (by rw [arrayBytes]; omega)
  have plain : (Arena.requireFresh reference start).run ⟨cursor, arena⟩ =
      if (arena.find? reference).isSome then
        .error (.duplicateArray reference start) ⟨cursor, arena⟩
      else .ok () ⟨cursor, arena⟩ := rfl
  rw [define, EStateM.run_bind, EStateM.run_bind, EStateM.run_get, plain]
  simp only [same.size_eq, narrow32_of_lt fits, grown, pure_bind, EStateM.run_bind,
    requireFresh_run, same.isSome_ids]
  cases found : arena.find? reference with
  | some position => exact .error rfl
  | none =>
    refine .ok ?_ ⟨cursorEq, same.push found (width ▸ size.toNat_lt)⟩
    rw [UInt32.ofNat_toNat]
    rfl

theorem requireRoom_run (slots : Nat) (reader : Reader payload) (made : Arrays) :
    (requireRoom slots).run ⟨reader, made⟩ =
      if reader.cursor.remaining < room slots then
        .error (.fault (.truncated reader.offset (room slots - reader.cursor.remaining)))
          ⟨reader, made⟩
      else (reserve nodeBytes slots).run ⟨reader, made⟩ := by
  have remaining_eq : (ofRead remaining).run (⟨reader, made⟩ : State payload Arrays) =
      .ok (payload.length - reader.offset) ⟨reader, made⟩ := ofRead_run (remaining_run reader)
  have offset_eq : (ofRead offset).run (⟨reader, made⟩ : State payload Arrays) =
      .ok reader.offset ⟨reader, made⟩ := ofRead_run (offset_run reader)
  rw [requireRoom, EStateM.run_bind, remaining_eq, reader.remaining_cursor]
  dsimp only
  split
  · rename_i short
    simp only [EStateM.run_bind, offset_eq, subtract_of_le short.le, EStateM.run_pure]
    rfl
  · rfl

/-- Slots are refused for want of bytes in the payload, or they find room in memory. -/
theorem ends_requireRoom {arena : Arena} {made : Arrays} (same : Matches arena made)
    (reader : Reader payload) {slots : Nat}
    (fits : reader.cursor.remaining < room slots ∨ nodeBytes * slots < 2 ^ 63) :
    (building payload Matches).Ends Eq ((Dispatch.requireRoom slots).run ⟨reader.cursor, arena⟩)
      ((requireRoom slots).run ⟨reader, made⟩) := by
  rw [requireRoom_run, EStateM.run, Dispatch.requireRoom]
  simp only [Cursor.holds_iff]
  by_cases short : reader.cursor.remaining < room slots
  · simp only [if_pos short, if_neg (Nat.not_le_of_lt short)]
    exact .error rfl
  · have enough : nodeBytes * slots < 2 ^ 63 := fits.resolve_left short
    simp only [if_neg short, if_pos (Nat.le_of_not_lt short), reserve_of_lt enough]
    exact .ok rfl ⟨rfl, same⟩

theorem keeps_requireRoom {slots : Nat} (fits : nodeBytes * slots < 2 ^ 63) :
    (building payload Matches).Keeps Eq (Dispatch.requireRoom slots) (requireRoom slots) := by
  rintro ⟨_, arena⟩ ⟨reader, made⟩ ⟨rfl, same⟩
  exact ends_requireRoom same reader (Or.inr fits)

theorem keeps_readSlots {readSlot : Build Arena Node} {checked : Building payload Node}
    (keeps : (building payload Matches).Keeps Eq readSlot checked) (count : Nat)
    (slots : Array Node) :
    (building payload Matches).Keeps
      (fun result other => result = other ∧ result.size = slots.size + count)
      (Dispatch.readSlots readSlot count slots) (readSlots checked count slots) := by
  induction count generalizing slots with
  | zero => exact Pairing.keeps_pure ⟨rfl, rfl⟩
  | succ count ih =>
    apply keeps.bind_eq
    intro slot
    apply (ih (slots.push slot)).imp
    rintro result other ⟨rfl, size⟩
    rw [Array.size_push] at size
    exact ⟨rfl, by omega⟩

theorem keeps_readArray {readSlot : Build Arena Node} {checked : Building payload Node}
    (keeps : (building payload Matches).Keeps Eq readSlot checked) (size : UInt32)
    (reference : UInt16) (start : Nat) : (building payload Matches).Keeps Eq
      (Dispatch.readArray .upFront readSlot size.toNat reference start)
      (readArray checked size reference start) := by
  apply (keeps_requireFresh reference start).bind_eq
  intro _
  -- The size is read from 32 bits, so that memory has room for so many nodes.
  have fits : nodeBytes * size.toNat < 2 ^ 63 := by
    have bound := size.toNat_lt
    rw [nodeBytes]
    omega
  apply (keeps_requireRoom fits).bind_eq
  intro _
  apply (keeps_readSlots keeps size.toNat #[]).bind
  rintro slots _ ⟨rfl, width⟩
  exact keeps_define (by simpa using width) reference start

section Nodes

variable (addressable : payload.length < 2 ^ 63)
include addressable

theorem keeps_readRecord : (reading payload).Keeps Eq Record.read readRecord := by
  apply (keeps_tag addressable RecordTag).bind_eq
  intro kind
  cases kind with
  | handlerReference =>
    apply (keeps_reference addressable).bind_eq
    intro id
    exact Pairing.keeps_pure rfl
  | arrayReference =>
    apply (keeps_varint addressable).bind_eq
    intro size
    apply (keeps_reference addressable).bind_eq
    intro name
    exact Pairing.keeps_pure rfl

theorem keeps_readSlot {readNested : Nat → UInt16 → Nat → Build Arena Node}
    {checked : UInt32 → UInt16 → Nat → Building payload Node}
    (keeps : ∀ size reference start, (building payload Matches).Keeps Eq
      (readNested size.toNat reference start) (checked size reference start)) :
    (building payload Matches).Keeps Eq (Dispatch.readSlot config readNested)
      (readSlot config checked) := by
  apply (keeps_ofRead keeps_offset).bind_eq
  intro start
  apply (keeps_ofRead (keeps_readRecord addressable)).bind_eq
  intro record
  cases record with
  | handler id =>
    apply (keeps_requireHandler id start).bind_eq
    intro handler
    exact Pairing.keeps_pure rfl
  | array size reference =>
    by_cases shared : size = 0
    · simp only [if_pos shared]
      exact keeps_share reference start
    · simp only [if_neg shared]
      exact keeps size reference start

/-- The depth of a slot and the levels below it always sum to the most fields of a walk. -/
theorem keeps_readNode (levels depth : Nat) (total : depth + levels + 1 = maxDepth) :
    (building payload Matches).Keeps Eq (Dispatch.readNode .upFront config levels)
      (readNode config depth) := by
  have within : depth < maxDepth := by omega
  induction levels generalizing depth with
  | zero =>
    have deep : maxDepth ≤ depth + 1 := total.ge
    rw [Dispatch.readNode, readNode, require_of within, pure_bind]
    apply keeps_readSlot addressable
    intro size reference start
    rw [dif_pos deep]
    exact Pairing.keeps_throw rfl
  | succ levels ih =>
    have shallow : ¬maxDepth ≤ depth + 1 := by omega
    rw [Dispatch.readNode, readNode, require_of within, pure_bind]
    apply keeps_readSlot addressable
    intro size reference start
    rw [dif_neg shallow]
    exact keeps_readArray (ih (depth + 1) (by omega) (by omega)) size reference start

theorem ends_readTable (reader : Reader payload)
    (fits : config.invalidHandler.value.toNat < config.handlerCount →
      reader.cursor.remaining < room config.slotCount ∨ nodeBytes * config.slotCount < 2 ^ 63) :
    (building payload Matches).Ends Eq
      ((Dispatch.readTable .upFront config).run ⟨reader.cursor, {}⟩)
      ((readTable config).run ⟨reader, {}⟩) := by
  rw [Dispatch.readTable, readTable, Config.requireHandler, requireHandler]
  by_cases known : config.invalidHandler.value.toNat < config.handlerCount
  · simp only [if_pos known, pure_bind]
    apply (ends_requireRoom Matches.nothing reader (fits known)).bind
    intro _ _ _
    have keepsNode : (building payload Matches).Keeps Eq
        (Dispatch.readNode .upFront config (maxDepth - 1)) (readNode config 0) :=
      keeps_readNode addressable (maxDepth - 1) 0 rfl
    apply (keeps_readSlots keepsNode config.slotCount #[]).bind
    rintro roots _ ⟨rfl, -⟩
    intro state checked paired
    refine .ok ?_ paired
    rw [paired.2.arrays]
  · simp only [if_neg known]
    exact .error rfl

end Nodes

end Keeps

/-! ## Payloads -/

variable (addressable : payload.length < 2 ^ 63) {config : Config}
include addressable

end InstructionTables.Dispatch.Checked
