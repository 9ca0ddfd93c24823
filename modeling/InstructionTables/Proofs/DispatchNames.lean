import InstructionTables.Proofs.DispatchAcceptance
import InstructionTables.Proofs.ParallelDispatch

/-! The names that a payload gives its arrays are only names. Written records that differ in the
names alone, where names that differ still differ, are built alike, whether they describe a table
or not: the tables are equal, and the faults differ at most in the name that they tell. -/
namespace InstructionTables

/-- The fault under another name for the array that it is about. -/
def Fault.rename (change : UInt16 → UInt16) : Fault → Fault
  | duplicateArray reference offset => duplicateArray (change reference) offset
  | danglingReference .array id offset =>
    danglingReference .array (change id.toUInt16).toUInt32 offset
  | fault => fault

namespace Dispatch

/-- The payload that is written from records, whatever they describe. -/
def payloadOf (records : List Record) : List UInt8 :=
  (Header.ofKind .decoder).payload (records.flatMap Record.items)

variable {change : UInt16 → UInt16}

/-! ## Written records -/

/-- A name takes two bytes, whatever it is. -/
theorem length_rename (change : UInt16 → UInt16) (record : Record) :
    (Item.encodeAll (record.rename change).items).length =
      (Item.encodeAll record.items).length := by
  cases record with
  | handler id => rfl
  | array size reference => simp [Record.rename, Record.items, Item.encode]

theorem length_map_rename (change : UInt16 → UInt16) (records : List Record) :
    (Item.encodeAll ((records.map (Record.rename change)).flatMap Record.items)).length =
      (Item.encodeAll (records.flatMap Record.items)).length := by
  induction records with
  | nil => rfl
  | cons record records ih =>
    rw [List.map_cons, List.flatMap_cons, List.flatMap_cons, Item.encodeAll_append,
      Item.encodeAll_append, List.length_append, List.length_append, ih, length_rename]

/-- Reads of written records beside reads of the same records under other names. -/
def renamedReads (change : UInt16 → UInt16) : Pairing Cursor Cursor where
  states before beside := ∃ records : List Record,
    before.rest = Item.encodeAll (records.flatMap Record.items) ∧
      beside = ⟨before.offset,
        Item.encodeAll ((records.map (Record.rename change)).flatMap Record.items)⟩
  faults fault other := other = fault.rename change
  opens _ := False

/-- A written record is read, and the cursor is then past its bytes. -/
theorem read_written (record : Record) (records : List Record) (offset : Nat) :
    Record.read.run ⟨offset, Item.encodeAll ((record :: records).flatMap Record.items)⟩ =
      .ok record ⟨offset + (Item.encodeAll record.items).length,
        Item.encodeAll (records.flatMap Record.items)⟩ := by
  apply record_ok_iff.mpr
  refine ⟨Item.encodeAll record.items, Item.spells_encodeAll record.items, ?_, rfl⟩
  rw [List.flatMap_cons, Item.encodeAll_append]

theorem renamed_keeps_record :
    (renamedReads change).Keeps (fun record renamed => renamed = record.rename change)
      Record.read Record.read := by
  rintro ⟨offset, rest⟩ _ ⟨records, rfl, rfl⟩
  cases records with
  | nil => exact .error rfl
  | cons record records =>
    rw [List.map_cons, read_written, read_written, length_rename]
    exact .ok rfl ⟨records, rfl, rfl⟩

theorem renamed_keeps_offset : (renamedReads change).Keeps Eq Read.offset Read.offset := by
  rintro ⟨offset, rest⟩ _ ⟨records, rfl, rfl⟩
  exact .ok rfl ⟨records, rfl, rfl⟩

/-- As many bytes are left in one payload as in the other. -/
theorem renamed_remaining {before beside : Cursor}
    (paired : (renamedReads change).states before beside) :
    beside.remaining = before.remaining := by
  obtain ⟨records, written, rfl⟩ := paired
  rw [Cursor.remaining, Cursor.remaining, written, length_map_rename]

theorem renamed_keeps_finish : (renamedReads change).Keeps Eq Read.finish Read.finish := by
  intro before beside paired
  have left := renamed_remaining paired
  have ends : beside.atEnd = before.atEnd := by
    rw [Cursor.atEnd, Cursor.atEnd, Bool.eq_iff_iff, List.isEmpty_iff_length_eq_zero,
      List.isEmpty_iff_length_eq_zero]
    exact Eq.congr_left left
  simp only [EStateM.run, Read.finish, ends, left]
  cases before.atEnd with
  | true => exact .ok rfl paired
  | false =>
    obtain ⟨records, -, rfl⟩ := paired
    exact .error rfl

/-! ## Arenas -/

/-- The definition under another name. -/
def Definition.rename (change : UInt16 → UInt16) (definition : Definition) : Definition :=
  { definition with reference := change definition.reference }

/-- Steps of a build beside the same ones under other names. -/
def renamedSteps (change : UInt16 → UInt16) : Pairing (Build.State Arena) (Build.State Arena) :=
  (renamedReads change).build fun arena renamed =>
    renamed.definitions = arena.definitions.map (Definition.rename change)

/-- A changed name leads to the position that the name led to. -/
theorem find?_rename {arena renamed : Arena} (injective : Function.Injective change)
    (same : renamed.definitions = arena.definitions.map (Definition.rename change))
    (reference : UInt16) :
    (renamed.find? (change reference)).map Fin.val = (arena.find? reference).map Fin.val := by
  rw [Arena.find?_eq, Arena.find?_eq, same, Array.findIdx?_map]
  congr 1
  funext definition
  exact Bool.eq_iff_iff.mpr (by simp [Definition.rename, injective.eq_iff])

/-- An array has the same node under either name. -/
theorem node_rename {arena renamed : Arena}
    (same : renamed.definitions = arena.definitions.map (Definition.rename change))
    {position : Fin arena.definitions.size} {moved : Fin renamed.definitions.size}
    (positionEq : moved.val = position.val) : renamed.node moved = arena.node position := by
  have inside : position.val < renamed.definitions.size := positionEq ▸ moved.isLt
  have slots : renamed.definitions[position.val].slots = arena.definitions[position.val].slots := by
    simp only [same, Array.getElem_map]
    rfl
  simp only [Arena.node, Fin.getElem_fin, positionEq, slots]

theorem renamed_keeps_share (injective : Function.Injective change) (reference : UInt16)
    (start : Nat) : (renamedSteps change).Keeps Eq (Arena.share reference start)
      (Arena.share (change reference) start) := by
  rintro ⟨cursor, arena⟩ ⟨beside, renamed⟩ ⟨paired, same⟩
  have found := find?_rename injective same reference
  simp only [EStateM.run, Arena.share]
  cases known : arena.find? reference with
  | none =>
    rw [known, Option.map_none, Option.map_eq_none_iff] at found
    simp only [found]
    exact .error (by simp [renamedSteps, Pairing.build, renamedReads, Fault.rename])
  | some position =>
    rw [known, Option.map_some, Option.map_eq_some_iff] at found
    obtain ⟨moved, foundThere, positionEq⟩ := found
    simp only [foundThere]
    exact .ok (node_rename same positionEq).symm ⟨paired, same⟩

theorem renamed_keeps_fresh (injective : Function.Injective change) (reference : UInt16)
    (start : Nat) : (renamedSteps change).Keeps Eq (Arena.requireFresh reference start)
      (Arena.requireFresh (change reference) start) := by
  rintro ⟨cursor, arena⟩ ⟨beside, renamed⟩ ⟨paired, same⟩
  have found := congrArg Option.isSome (find?_rename injective same reference)
  rw [Option.isSome_map, Option.isSome_map] at found
  simp only [EStateM.run, Arena.requireFresh, found]
  cases (arena.find? reference).isSome with
  | false => exact .ok rfl ⟨paired, same⟩
  | true => exact .error rfl

theorem renamed_keeps_define (reference : UInt16) (size : Nat) (slots : Array Node) :
    (renamedSteps change).Keeps Eq (Arena.define reference size slots)
      (Arena.define (change reference) size slots) := by
  rintro ⟨cursor, arena⟩ ⟨beside, renamed⟩ ⟨paired, same⟩
  have count : renamed.size = arena.size := by
    rw [Arena.size, Arena.size, same, Array.size_map]
  refine .ok ?_ ⟨paired, ?_⟩
  · rw [count]
  · change renamed.definitions.push _ = (arena.definitions.push _).map _
    rw [show renamed.definitions = _ from same, Array.map_push]
    rfl

theorem renamed_steps_keep (injective : Function.Injective change) (config : Config) :
    StepsKeep (renamedSteps change) change .upFront .upFront config config where
  slotCount := rfl
  invalidHandler := rfl
  offset := renamed_keeps_offset.ofRead
  record := renamed_keeps_record.ofRead
  handler id start := by
    rw [Config.requireHandler]
    split
    · exact Pairing.keeps_pure rfl
    · exact Pairing.keeps_throw rfl
  room slots := by
    rintro ⟨cursor, arena⟩ ⟨beside, renamed⟩ ⟨paired, same⟩
    have left := renamed_remaining paired
    have place : beside.offset = cursor.offset := by
      obtain ⟨records, -, rfl⟩ := paired
      rfl
    simp only [EStateM.run, RoomCheck.run, requireRoom, Cursor.holds_iff, left, place]
    by_cases enough : room slots ≤ cursor.remaining
    · rw [if_pos enough, if_pos enough]
      exact .ok rfl ⟨paired, same⟩
    · rw [if_neg enough, if_neg enough]
      exact .error rfl
  share := renamed_keeps_share injective
  fresh := renamed_keeps_fresh injective
  define := renamed_keeps_define
  tooDeep _ := rfl
  arrays state twin paired := by
    rw [paired.2, Array.map_map]
    rfl

/-! ## Tables -/

/-- What is left of two runs without the states they end in. -/
theorem outcome_rename {first second : EStateM.Result Fault (Build.State Arena) α}
    (ends : (renamedSteps change).Ends Eq first second) :
    Build.outcome second = (Build.outcome first).mapError (Fault.rename change) := by
  cases ends with
  | ok related _ => exact congrArg Except.ok related.symm
  | error related => exact congrArg Except.error related
  | opened none => exact none.elim

/-- Injective renaming changes no table and no fault, but for the name that a fault tells. -/
theorem ofBytes_rename (injective : Function.Injective change) (records : List Record)
    (config : Config) :
    Table.ofBytes (payloadOf (records.map (Record.rename change))) config =
      (Table.ofBytes (payloadOf records) config).mapError (Fault.rename change) := by
  have ended : (renamedSteps change).Keeps Eq (readTable .upFront config).toEnd
      (readTable .upFront config).toEnd := by
    apply (renamed_steps_keep injective config).readTable.bind_eq
    intro table
    apply renamed_keeps_finish.ofRead.bind_eq
    intro _
    exact Pairing.keeps_pure rfl
  have paired : (renamedSteps change).states
      ⟨⟨Header.size, Item.encodeAll (records.flatMap Record.items)⟩, {}⟩
      ⟨⟨Header.size, Item.encodeAll ((records.map (Record.rename change)).flatMap Record.items)⟩,
        {}⟩ :=
    ⟨⟨records, rfl, rfl⟩, Array.map_empty.symm⟩
  rw [payloadOf, payloadOf, Header.payload, Header.payload, Table.ofBytes, Table.ofBytes,
    Table.build, Table.build, Table.buildWith, Table.buildWith, Build.report_result_body,
    Build.report_result_body]
  exact outcome_rename (ended _ _ paired)

/-- An array is defined twice, under whatever name it has. -/
theorem ofBytes_rename_duplicate :
    Function.Injective (fun reference : UInt16 => reference + 5) ∧
      Table.ofBytes (payloadOf [.array 1 0xffff, .handler 1, .array 1 0xffff, .handler 0])
        ⟨2, 2, {}⟩ = .error (.duplicateArray 0xffff 11) ∧
      Table.ofBytes (payloadOf [.array 1 4, .handler 1, .array 1 4, .handler 0])
        ⟨2, 2, {}⟩ = .error (.duplicateArray 4 11) := by
  have injective : Function.Injective (fun reference : UInt16 => reference + 5) :=
    fun first second same => by simpa using same
  have refused : Table.ofBytes
      (payloadOf [.array 1 0xffff, .handler 1, .array 1 0xffff, .handler 0]) ⟨2, 2, {}⟩ =
        .error (.duplicateArray 0xffff 11) := by
    decide +kernel
  have renamed := ofBytes_rename injective
    [.array 1 0xffff, .handler 1, .array 1 0xffff, .handler 0] ⟨2, 2, {}⟩
  rw [refused] at renamed
  exact ⟨injective, refused, renamed⟩

end Dispatch

end InstructionTables
