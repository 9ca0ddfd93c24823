import InstructionTables.Proofs.DispatchPlaces
import InstructionTables.Proofs.RefusedReads

/-! What the faults of a dispatch payload tell. Every step of a build is first turned into what it
refuses. The slots before the one that is refused have been read, so they are those of a forest,
and with the arrays that are open around it they make up the place of the fault. The main statements
say, for each fault, what stands in the payload at the offset that the fault tells and which arrays
are open and complete there. -/
namespace InstructionTables

/-- The faults that a header can have. -/
def Fault.OfHeader : Fault → Prop
  | truncated .. | badMagic _ | wrongPayloadKind .. | unsupportedVersion .. => True
  | _ => False

/-- A payload that is refused for its header has a fault of headers. -/
theorem Cursor.afterHeader_refused {fault : Fault}
    (refused : Cursor.afterHeader payload kind = .error fault) : fault.OfHeader := by
  cases Cursor.afterHeader_error_iff.mp refused <;> trivial

namespace Dispatch

variable {config : Config} {before : Build.State Arena} {fault : Fault}

/-! ## Steps -/

section Steps

theorem requireHandler_refuses_iff {id : UInt16} :
    Refuses (config.requireHandler id start) before fault ↔
      config.handlerCount ≤ id.toNat ∧ fault = .danglingReference .handler id.toUInt32 start := by
  rw [Config.requireHandler]
  split
  · rename_i known
    simp [not_refuses_pure, known]
  · rename_i unknown
    simp [refuses_throw_iff, Nat.le_of_not_lt unknown]

theorem check_refuses {check : RoomCheck} (refused : Refuses (check.run slots) before fault) :
    before.cursor.remaining < room slots ∧
      fault = .truncated before.cursor.offset (room slots - before.cursor.remaining) := by
  obtain ⟨after, ran⟩ := refused
  cases check with
  | upFront =>
    refine ⟨?_, (requireRoom_error ran).1⟩
    by_contra enough
    have accepted : (RoomCheck.upFront.run slots).run before = .ok () before :=
      check_ok_iff.mpr ⟨fun _ => Nat.le_of_not_lt enough, rfl⟩
    rw [accepted] at ran
    cases ran
  | whenMissing => cases ran

theorem share_refuses_iff :
    Refuses (Arena.share reference start) before fault ↔
      before.made.find? reference = none ∧
        fault = .danglingReference .array reference.toUInt32 start := by
  simp only [Refuses, EStateM.run, Arena.share]
  cases before.made.find? reference <;> simp [eq_comm]

theorem requireFresh_refuses_iff :
    Refuses (Arena.requireFresh reference start) before fault ↔
      before.made.find? reference ≠ none ∧ fault = .duplicateArray reference start := by
  simp only [Refuses, EStateM.run, Arena.requireFresh]
  cases before.made.find? reference <;> simp [eq_comm]

/-- A record is refused for its tag, or because it does not end or has no size. -/
theorem record_refuses {place : Cursor} (refused : Refuses Record.read place fault) :
    (∃ value rest, place.rest = value :: rest ∧ 2 ≤ value.toNat ∧
      fault = .invalidTag (Tag.label RecordTag) value place.offset) ∨
    (∃ offset needed, fault = .truncated offset needed) ∨
      ∃ offset, fault = .invalidVarint offset := by
  rw [Record.read, refuses_bind_iff, Read.tag_refuses_iff] at refused
  obtain (⟨-, rfl⟩ | unknown) | ⟨tag, middle, -, refused⟩ := refused
  · exact Or.inr (Or.inl ⟨_, _, rfl⟩)
  · exact Or.inl unknown
  · cases tag with
    | handlerReference =>
      simp only [refuses_bind_iff, Read.reference_refuses_iff, not_refuses_pure, and_false,
        exists_false, or_false] at refused
      exact Or.inr (Or.inl ⟨_, _, refused.2⟩)
    | arrayReference =>
      simp only [refuses_bind_iff, Read.varint_refuses_iff, Read.reference_refuses_iff,
        not_refuses_pure, and_false, exists_false, or_false] at refused
      obtain (⟨-, rfl⟩ | ⟨-, rfl⟩) | ⟨_, _, -, -, rfl⟩ := refused
      · exact Or.inr (Or.inl ⟨_, _, rfl⟩)
      · exact Or.inr (Or.inr ⟨_, rfl⟩)
      · exact Or.inr (Or.inl ⟨_, _, rfl⟩)

/-- An array is refused for its name, for want of room, or for one of its slots. -/
theorem readArray_refuses {check : RoomCheck} {readSlot : Build Arena Node}
    (refused : Refuses (readArray check readSlot size reference start) before fault) :
    before.made.find? reference ≠ none ∧ fault = .duplicateArray reference start ∨
    before.made.find? reference = none ∧
      (before.cursor.remaining < room size ∧
        fault = .truncated before.cursor.offset (room size - before.cursor.remaining) ∨
      Refuses (readSlots readSlot size #[]) before fault ∨
      ∃ slots middle, (readSlots readSlot size #[]).run before = .ok slots middle ∧
        middle.made.find? reference ≠ none ∧ fault = .duplicateArray reference start) := by
  simp only [readArray, refuses_bind_iff, requireFresh_refuses_iff, requireFresh_ok_iff,
    check_ok_iff] at refused
  obtain taken |
    ⟨_, _, ⟨fresh, rfl⟩, short | ⟨_, _, ⟨-, rfl⟩, inner | ⟨slots, middle, ran, late⟩⟩⟩ := refused
  · exact Or.inl taken
  · exact Or.inr ⟨fresh, Or.inl (check_refuses short)⟩
  · exact Or.inr ⟨fresh, Or.inr (Or.inl inner)⟩
  · obtain ⟨taken, rfl⟩ | ⟨_, _, -, _, defined⟩ := late
    · exact Or.inr ⟨fresh, Or.inr (Or.inr ⟨slots, middle, ran, taken, rfl⟩)⟩
    · cases defined

/-- Where slots are refused, some of them are read and the next one is refused. -/
theorem readSlots_error {readSlot : Build Arena Node} {after : Build.State Arena}
    (failed : (readSlots readSlot count slots).run before = .error fault after) :
    ∃ done result middle, done < count ∧
      (readSlots readSlot done slots).run before = .ok result middle ∧
      readSlot.run middle = .error fault after := by
  induction count generalizing slots before with
  | zero => cases failed
  | succ count ih =>
    rw [readSlots, EStateM.run_bind] at failed
    cases ran : readSlot.run before with
    | error refused last =>
      rw [ran] at failed
      cases failed
      exact ⟨0, slots, before, Nat.succ_pos count, readSlots_zero_ok_iff.mpr ⟨rfl, rfl⟩, ran⟩
    | ok slot middle =>
      rw [ran] at failed
      obtain ⟨done, result, last, fewer, others, refused⟩ := ih failed
      exact ⟨done + 1, result, last, Nat.succ_lt_succ fewer,
        readSlots_succ_ok_iff.mpr ⟨slot, middle, ran, others⟩, refused⟩

theorem readSlots_refuses {readSlot : Build Arena Node}
    (refused : Refuses (readSlots readSlot count slots) before fault) :
    ∃ done result middle, done < count ∧
      (readSlots readSlot done slots).run before = .ok result middle ∧
      Refuses readSlot middle fault := by
  obtain ⟨after, failed⟩ := refused
  obtain ⟨done, result, middle, fewer, ran, refused⟩ := readSlots_error failed
  exact ⟨done, result, middle, fewer, ran, after, refused⟩

end Steps

/-! ## Slots -/

/-- Why the slot at a place is refused, below which `levels` arrays may be nested and before which
the arrays called `complete` are complete. -/
inductive SlotRefused (config : Config) (levels : Nat) (complete : List UInt16) (place : Cursor) :
    Fault → Prop where
  /-- No record can be read. -/
  | record {fault : Fault} :
      Refuses Record.read place fault → SlotRefused config levels complete place fault
  /-- The handler does not exist. -/
  | handler {id : UInt16} {next : Cursor} :
      place.Spans (Record.handler id).items next → config.handlerCount ≤ id.toNat →
      SlotRefused config levels complete place
        (.danglingReference .handler id.toUInt32 place.offset)
  /-- The array that is shared is not complete. -/
  | shared {reference : UInt16} {next : Cursor} :
      place.Spans (Record.array 0 reference).items next → reference ∉ complete →
      SlotRefused config levels complete place
        (.danglingReference .array reference.toUInt32 place.offset)
  /-- An array is defined where no array may be nested any more. -/
  | nested {size : UInt32} {reference : UInt16} {next : Cursor} :
      levels = 0 → place.Spans (Record.array size reference).items next → size ≠ 0 →
      SlotRefused config levels complete place (.tooDeep maxDepth place.offset)
  /-- An array is defined under the name of a complete one. -/
  | taken {size : UInt32} {reference : UInt16} {next : Cursor} :
      place.Spans (Record.array size reference).items next → size ≠ 0 → reference ∈ complete →
      SlotRefused config levels complete place (.duplicateArray reference place.offset)
  /-- The slots of an array have no room. -/
  | room {size : UInt32} {reference : UInt16} {next : Cursor} :
      place.Spans (Record.array size reference).items next → size ≠ 0 →
      next.remaining < room size.toNat →
      SlotRefused config levels complete place
        (.truncated next.offset (Dispatch.room size.toNat - next.remaining))
  /-- All slots of an array are read, and one of the arrays among them has its name. -/
  | takenWithin {below : Nat} {size : UInt32} {reference : UInt16} {slots : Forest}
      {next last : Cursor} :
      levels = below + 1 → place.Spans (Record.array size reference).items next → size ≠ 0 →
      next.Spans slots.items last → slots.width = size.toNat → slots.Fits config below complete →
      reference ∈ slots.names →
      SlotRefused config levels complete place (.duplicateArray reference place.offset)

section Slots

variable {check : RoomCheck} {complete : List (UInt16 × Forest)}

/-- A slot is refused where it stands, or for what is refused of the array that it defines. -/
theorem readNode_refuses (held : before.made.Holds complete)
    (refused : Refuses (readNode check config levels) before fault) :
    SlotRefused config levels (complete.map Prod.fst) before.cursor fault ∨
      ∃ below size reference middle, levels = below + 1 ∧
        before.cursor.Spans (Record.array size reference).items middle ∧ size ≠ 0 ∧
          Refuses (readArray check (readNode check config below) size.toNat reference
            before.cursor.offset) ⟨middle, before.made⟩ fault := by
  have slot {readNested : Nat → UInt16 → Nat → Build Arena Node}
      (refused : Refuses (readSlot config readNested) before fault) :
      SlotRefused config levels (complete.map Prod.fst) before.cursor fault ∨
        ∃ size reference middle, before.cursor.Spans (Record.array size reference).items middle ∧
          size ≠ 0 ∧ Refuses (readNested size.toNat reference before.cursor.offset)
            ⟨middle, before.made⟩ fault := by
    simp only [readSlot, refuses_bind_iff, Build.ofRead_refuses_iff, Read.not_refuses_offset,
      false_or, Build.ofRead_ok_iff, Read.offset_ok_iff, record_ok_iff] at refused
    obtain ⟨_, ⟨_, _⟩, ⟨⟨rfl, rfl⟩, rfl⟩, unread | ⟨record, ⟨next, _⟩, ⟨spans, rfl⟩, refused⟩⟩ :=
      refused
    · exact Or.inl (.record unread)
    · cases record with
      | handler id =>
        simp only [refuses_bind_iff, requireHandler_refuses_iff, not_refuses_pure, and_false,
          exists_false, or_false] at refused
        obtain ⟨unknown, rfl⟩ := refused
        exact Or.inl (.handler spans unknown)
      | array size reference =>
        by_cases shared : size = 0
        · subst shared
          simp only [↓reduceIte, share_refuses_iff, held.find?_eq_none_iff] at refused
          obtain ⟨absent, rfl⟩ := refused
          exact Or.inl (.shared spans absent)
        · simp only [shared, ↓reduceIte] at refused
          exact Or.inr ⟨size, reference, next, spans, shared, refused⟩
  cases levels with
  | zero =>
    rw [readNode] at refused
    obtain here | ⟨size, reference, middle, spans, defined, refused⟩ := slot refused
    · exact Or.inl here
    · obtain rfl := refuses_throw_iff.mp refused
      exact Or.inl (.nested rfl spans defined)
  | succ levels =>
    rw [readNode] at refused
    obtain here | ⟨size, reference, middle, others⟩ := slot refused
    · exact Or.inl here
    · exact Or.inr ⟨levels, size, reference, middle, rfl, others⟩

/-- Slots are refused at a place among them, for what stands there. -/
theorem readSlots_refused (levels : Nat) (held : before.made.Holds complete)
    (refused : Refuses (readSlots (readNode check config levels) count slots) before fault) :
    ∃ opened known place,
      Within config levels count (complete.map Prod.fst) before.cursor opened known place ∧
      SlotRefused config (levels - opened.length) known place fault := by
  -- The slots before the refused one are read, and those of its array are one level below it.
  induction levels using Nat.strongRecOn generalizing count complete slots before with
  | ind levels ih =>
  obtain ⟨done, result, middle, fewer, ran, refused⟩ := readSlots_refuses refused
  obtain ⟨forest, rfl, fits, spans, made, -⟩ := readSlots_sound levels held ran
  have names : (complete ++ forest.arrays).map Prod.fst = complete.map Prod.fst ++ forest.names :=
    List.map_append
  have here : Within config levels count (complete.map Prod.fst) before.cursor []
      (complete.map Prod.fst ++ forest.names) middle.cursor :=
    .here fewer fits spans
  rw [← names] at here
  obtain atSlot | ⟨below, size, reference, first, rfl, opening, defined, refused⟩ :=
    readNode_refuses made refused
  · exact ⟨[], _, middle.cursor, here, atSlot⟩
  · obtain ⟨taken, rfl⟩ | ⟨fresh, refused⟩ := readArray_refuses refused
    · rw [ne_eq, made.find?_eq_none_iff, not_not] at taken
      exact ⟨[], _, middle.cursor, here, .taken opening defined taken⟩
    · rw [made.find?_eq_none_iff] at fresh
      replace held : (⟨first, middle.made⟩ : Build.State Arena).made.Holds
          (complete ++ forest.arrays) := made
      obtain ⟨short, rfl⟩ | inner | ⟨_, last, innerRan, late, rfl⟩ := refused
      · exact ⟨[], _, middle.cursor, here, .room opening defined short⟩
      · obtain ⟨opened, known, place, within, atPlace⟩ :=
          ih below (Nat.lt_succ_self below) held inner
        rw [names] at within fresh
        refine ⟨reference :: opened, known, place,
          .inside fewer fits spans opening defined fresh within, ?_⟩
        rwa [List.length_cons, Nat.add_sub_add_right]
      · obtain ⟨slots, width, slotsFit, inner, lastMade, -⟩ :=
          readSlots_sound below held innerRan
        rw [ne_eq, lastMade.find?_eq_none_iff, not_not, List.map_append, List.mem_append] at late
        exact ⟨[], _, middle.cursor, here, .takenWithin rfl opening defined inner width slotsFit
          (late.resolve_left fresh)⟩

end Slots

/-! ## Whole payloads -/

/-- Why a payload is refused. -/
inductive Refused (payload : List UInt8) (config : Config) : Fault → Prop where
  | header {fault : Fault} :
      Cursor.afterHeader payload .decoder = .error fault → Refused payload config fault
  /-- The handler of opcodes outside the table does not exist. -/
  | invalidHandler :
      config.handlerCount ≤ config.invalidHandler.value.toNat →
      Refused payload config
        (.danglingReference .handler config.invalidHandler.value.toUInt32 0)
  /-- The slots of the table have no room. -/
  | room {start : Cursor} :
      Cursor.afterHeader payload .decoder = .ok start →
      start.remaining < Dispatch.room config.slotCount →
      Refused payload config
        (.truncated start.offset (Dispatch.room config.slotCount - start.remaining))
  | slot {opened complete : List UInt16} {offset : Nat} {fault : Fault} :
      SlotAt payload config opened complete offset →
      SlotRefused config (maxDepth - 1 - opened.length) complete ⟨offset, payload.drop offset⟩
        fault →
      Refused payload config fault
  /-- The payload goes on behind the slots of the table. -/
  | left {forest : Forest} {body rest : List UInt8} :
      payload = (Header.ofKind .decoder).toBytes ++ body ++ rest → rest ≠ [] →
      forest.Listing body → forest.width = config.slotCount →
      forest.Fits config (maxDepth - 1) [] →
      Refused payload config (.trailingData (Header.size + body.length) rest.length)

theorem readTable_refuses {check : RoomCheck} {start : Cursor}
    (accepted : Cursor.afterHeader payload .decoder = .ok start)
    (refused : Refuses (readTable check config) ⟨start, {}⟩ fault) :
    Refused payload config fault := by
  simp only [readTable, refuses_bind_iff, requireHandler_refuses_iff, requireHandler_ok_iff,
    check_ok_iff, Build.not_refuses_made, not_refuses_pure, and_false, exists_false,
    or_false] at refused
  obtain ⟨unknown, rfl⟩ | ⟨_, _, ⟨-, rfl, rfl⟩, short | ⟨_, _, ⟨-, rfl⟩, refused⟩⟩ := refused
  · exact .invalidHandler unknown
  · obtain ⟨missing, rfl⟩ := check_refuses short
    exact .room accepted missing
  · obtain ⟨opened, complete, place, within, atSlot⟩ :=
      readSlots_refused (maxDepth - 1) Arena.Holds.nothing refused
    obtain ⟨records, spans, -⟩ := within.exists_records
    have reached : Reached payload records place := ⟨start, accepted, spans⟩
    rw [reached.place_eq.2] at within atSlot
    exact .slot ⟨start, accepted, within⟩ atSlot

/-- A payload is refused for its header, for a handler or room that the table does not have, for
what stands at a slot, or for the bytes behind the last slot. -/
theorem ofBytes_refused (refused : Table.ofBytes payload config = .error fault) :
    Refused payload config fault := by
  rw [Table.ofBytes, Table.build, Table.buildWith, Build.report_result_error_iff] at refused
  obtain header | ⟨start, accepted, inside | ⟨table, ⟨last, made⟩, ran, left, rfl⟩⟩ := refused
  · exact .header header
  · exact readTable_refuses accepted inside
  · obtain ⟨-, forest, ⟨body, spells, restEq, offsetEq⟩, width, fits, -⟩ :=
      readTable_ok_iff.mp ⟨made, ran⟩
    obtain ⟨payloadEq, startEq⟩ := Cursor.afterHeader_ok_iff.mp accepted
    rw [restEq, ← List.append_assoc] at payloadEq
    rw [startEq] at offsetEq
    simp only [offsetEq, Cursor.remaining]
    exact .left payloadEq left (Forest.listing_iff.mpr spells) width fits

/-- A definition starts where an array is refused for its name. If the name is taken by a complete
array, a definition of it starts earlier. Otherwise all slots of the refused array are read and
one of the arrays among them has the name, so that the definition of that one starts later; then a
definition starts earlier only if an array of the same name is open around both. -/
theorem ofBytes_duplicateArray
    (refused : Table.ofBytes payload config = .error (.duplicateArray reference offset)) :
    DefinitionAt payload reference offset ∧
      ∃ opened complete, SlotAt payload config opened complete offset ∧
        ((∃ earlier, earlier < offset ∧ DefinitionAt payload reference earlier) ↔
          reference ∈ complete ∨ reference ∈ opened) ∧
        (reference ∈ complete ∨
          ∃ (slots : Forest) (bytes : List UInt8),
            (Forest.define reference slots .nil).Listing bytes ∧ bytes <+: payload.drop offset ∧
            reference ∈ slots.names ∧
            ∃ inner, offset < inner ∧ inner < offset + bytes.length ∧
              DefinitionAt payload reference inner) := by
  cases ofBytes_refused refused with
  | header header => exact (Cursor.afterHeader_refused header).elim
  | @slot opened complete offset _ slot atSlot =>
    obtain ⟨records, reached, -⟩ := slot.exists_records
    cases atSlot with
    | record unread =>
      obtain ⟨_, _, -, -, same⟩ | ⟨_, _, same⟩ | ⟨_, same⟩ := record_refuses unread <;> cases same
    | taken spans defined known =>
      exact ⟨⟨records, _, reached, defined, standsAt_iff.mpr ⟨_, spans⟩⟩, opened, complete, slot,
        slot.definition_before_iff, Or.inl known⟩
    | @takenWithin _ size _ slots next last _ spans defined inner width fits named =>
      have stands : DefinitionAt payload reference offset :=
        ⟨records, size, reached, defined, standsAt_iff.mpr ⟨next, spans⟩⟩
      -- The array with its slots stands at the offset, and its slots come behind its record.
      have sizeEq : UInt32.ofNat slots.width = size := by rw [width, UInt32.ofNat_toNat]
      have whole : (Cursor.mk offset (payload.drop offset)).Spans
          (Forest.define reference slots .nil).items last := by
        rw [Forest.items_define, sizeEq]
        exact spans.trans (inner.trans (Cursor.spans_nil_iff.mpr rfl))
      obtain ⟨bytes, spells, restEq, lastEq⟩ := whole
      obtain ⟨other, otherDefined, member⟩ := (Forest.mem_names_iff fits).mp named
      obtain ⟨start, behind, before, found⟩ :=
        (reached.behind spans).definition_behind inner otherDefined member
      exact ⟨stands, opened, complete, slot, slot.definition_before_iff, Or.inr ⟨slots, bytes,
        Forest.listing_iff.mpr spells, ⟨last.rest, restEq.symm⟩, named, start,
        (Record.offset_lt spans).trans_le behind, lastEq ▸ before, found⟩⟩

/-- A definition inside of one of the same name. Nothing is defined before the outer one, so the
other definition starts behind the offset that the fault tells. -/
theorem ofBytes_duplicateArray_within :
    ∃ inner, 4 < inner ∧
      DefinitionAt [1, 0, 0xed, 0x1c, 1, 1, 5, 0, 1, 1, 5, 0, 0, 1, 0] 5 inner := by
  have refused : Table.ofBytes [1, 0, 0xed, 0x1c, 1, 1, 5, 0, 1, 1, 5, 0, 0, 1, 0] ⟨1, 2, {}⟩ =
      .error (.duplicateArray 5 4) := by decide +kernel
  obtain ⟨-, opened, complete, -, before, known | ⟨_, _, -, -, -, inner, behind, -, found⟩⟩ :=
    ofBytes_duplicateArray refused
  · obtain ⟨earlier, early, foundEarlier⟩ := before.mpr (Or.inl known)
    exact absurd foundEarlier.header_le (Nat.not_le.mpr early)
  · exact ⟨inner, behind, found⟩

/-- An array inside of an array of the same name. The inner one is complete first, so the fault
tells where the outer one starts, and nothing is defined before that. -/
theorem duplicateArray_tells_first :
    Table.ofBytes [1, 0, 0xed, 0x1c, 1, 1, 5, 0, 1, 1, 5, 0, 0, 1, 0] ⟨1, 2, {}⟩ =
        .error (.duplicateArray 5 4) ∧
      ¬ ∃ earlier, earlier < 4 ∧
        DefinitionAt [1, 0, 0xed, 0x1c, 1, 1, 5, 0, 1, 1, 5, 0, 0, 1, 0] 5 earlier := by
  refine ⟨by decide +kernel, ?_⟩
  rintro ⟨earlier, before, found⟩
  exact absurd found.header_le (Nat.not_le.mpr before)

/-- What a fault tells about the payload, apart from faults that are about missing bytes, numbers,
names that are taken, or the header. -/
def Located (payload : List UInt8) (config : Config) : Fault → Prop
  | .invalidTag label value offset =>
    label = Tag.label RecordTag ∧ 2 ≤ value.toNat ∧ payload[offset]? = some value ∧
      ∃ opened complete, SlotAt payload config opened complete offset
  | .danglingReference .handler id offset =>
    config.handlerCount ≤ id.toNat ∧
      (offset = 0 ∧ id = config.invalidHandler.value.toUInt32 ∨
        Header.size ≤ offset ∧ (∃ opened complete, SlotAt payload config opened complete offset) ∧
          ∃ handler : UInt16, id = handler.toUInt32 ∧
            [0x00, handler.toUInt8, (handler >>> 8).toUInt8] <+: payload.drop offset)
  | .danglingReference .array id offset =>
    ∃ (opened complete : List UInt16) (reference : UInt16), id = reference.toUInt32 ∧
      SlotAt payload config opened complete offset ∧ reference ∉ complete ∧
      ∃ size, Varint.Spelling 0 size ∧
        0x01 :: size ++ [reference.toUInt8, (reference >>> 8).toUInt8] <+: payload.drop offset
  | .tooDeep limit offset =>
    limit = 8 ∧ ∃ (opened complete : List UInt16) (reference : UInt16),
      SlotAt payload config opened complete offset ∧ opened.length = 7 ∧
      ∃ width size, width ≠ 0 ∧ Varint.Spelling width size ∧
        0x01 :: size ++ [reference.toUInt8, (reference >>> 8).toUInt8] <+: payload.drop offset
  | .trailingData offset length =>
    0 < length ∧ offset + length = payload.length ∧
      ∃ forest : Forest, forest.Listing ((payload.take offset).drop Header.size) ∧
        forest.width = config.slotCount ∧ forest.Fits config (maxDepth - 1) []
  | .malformedRecord .. => False
  | .truncated .. | .invalidVarint _ | .duplicateArray .. | .badMagic _ | .wrongPayloadKind ..
  | .unsupportedVersion .. => True

/-- An array record that stands at an offset is spelled there. -/
theorem array_stands {payload : List UInt8} {offset : Nat} {size : UInt32} {reference : UInt16}
    {next : Cursor}
    (spans : (Cursor.mk offset (payload.drop offset)).Spans
      (Record.array size reference).items next) :
    ∃ number, Varint.Spelling size number ∧
      0x01 :: number ++ [reference.toUInt8, (reference >>> 8).toUInt8] <+: payload.drop offset := by
  obtain ⟨bytes, spells, begins⟩ := standsAt_iff.mpr ⟨next, spans⟩
  obtain ⟨number, spelled, rfl⟩ := Forest.array_spells_iff.mp spells
  exact ⟨number, spelled, begins⟩

/-- What is refused at a slot is told with its place. -/
theorem SlotRefused.located {payload : List UInt8} {opened complete : List UInt16} {offset : Nat}
    (slot : SlotAt payload config opened complete offset)
    (refused : SlotRefused config (maxDepth - 1 - opened.length) complete
      ⟨offset, payload.drop offset⟩ fault) :
    Located payload config fault := by
  cases refused with
  | record unread =>
    obtain ⟨value, rest, restEq, unknown, rfl⟩ | ⟨_, _, rfl⟩ | ⟨_, rfl⟩ := record_refuses unread
    · refine ⟨rfl, unknown, ?_, opened, complete, slot⟩
      have first := congrArg List.head? restEq
      rwa [List.head?_drop] at first
    · trivial
    · trivial
  | @handler id next spans unknown =>
    obtain ⟨records, reached, -⟩ := slot.exists_records
    obtain ⟨bytes, spells, begins⟩ := standsAt_iff.mpr ⟨next, spans⟩
    obtain rfl := Forest.handler_spells_iff.mp spells
    refine ⟨?_, Or.inr ⟨reached.place_eq.1, ⟨opened, complete, slot⟩, id, rfl, begins⟩⟩
    rwa [UInt16.toNat_toUInt32]
  | shared spans absent =>
    exact ⟨opened, complete, _, rfl, slot, absent, array_stands spans⟩
  | @nested size reference next deepest spans defined =>
    obtain ⟨start, accepted, within⟩ := slot
    have most := within.length_le
    obtain ⟨number, spelled, begins⟩ := array_stands spans
    refine ⟨rfl, opened, complete, reference, ⟨start, accepted, within⟩, ?_, size, number, defined,
      spelled, begins⟩
    simp only [maxDepth] at most deepest
    omega
  | taken | room | takenWithin => trivial

/-- What a payload is refused for is told with its place. -/
theorem Refused.located (refused : Refused payload config fault) :
    Located payload config fault := by
  cases refused with
  | header header =>
    have ofHeader := Cursor.afterHeader_refused header
    cases fault with
    | truncated | badMagic | wrongPayloadKind | unsupportedVersion => trivial
    | _ => exact ofHeader.elim
  | invalidHandler unknown =>
    refine ⟨?_, Or.inl ⟨rfl, rfl⟩⟩
    rwa [UInt16.toNat_toUInt32]
  | room => trivial
  | slot slot atSlot => exact atSlot.located slot
  | @left forest body rest payloadEq left listing width fits =>
    have header : (Header.ofKind .decoder).toBytes.length = Header.size := rfl
    refine ⟨List.length_pos_iff.mpr left, ?_, forest, ?_, width, fits⟩
    · rw [payloadEq, List.length_append, List.length_append, header]
    · have taken : payload.take (Header.size + body.length) =
          (Header.ofKind .decoder).toBytes ++ body := by
        rw [payloadEq, ← header, ← List.length_append, List.take_left]
      rw [taken, ← header, List.drop_left]
      exact listing

/-- Each fault tells where it is. A byte that is no tag is the first byte of a slot. A handler that
does not exist is the one for opcodes outside the table, or stands in a slot. An array that does not
exist is shared by a slot before which no array of that name is complete. An array is nested too
deep where it is defined inside of seven arrays that are open. Bytes are left over behind the
slots of the table. -/
theorem ofBytes_located (refused : Table.ofBytes payload config = .error fault) :
    Located payload config fault :=
  (ofBytes_refused refused).located

/-- Eight definitions inside of one another. The one that is nested too deep starts behind seven
records of four bytes. -/
theorem ofBytes_located_tooDeep :
    Located [1, 0, 0xed, 0x1c, 1, 1, 1, 0, 1, 1, 2, 0, 1, 1, 3, 0, 1, 1, 4, 0, 1, 1, 5, 0,
      1, 1, 6, 0, 1, 1, 7, 0, 1, 1, 8, 0] ⟨1, 2, {}⟩ (.tooDeep 8 32) :=
  ofBytes_located (by decide +kernel)

end Dispatch

end InstructionTables
