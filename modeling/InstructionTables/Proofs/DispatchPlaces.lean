import InstructionTables.Proofs.ConcatenatedPayloads
import InstructionTables.Proofs.RoomChecks

/-! Where slots and definitions start in a dispatch payload. A place before a slot has complete
slots before it, in the list that it belongs to and in those around it, and is enclosed by arrays
that have been opened and are not complete. The definitions that start before such a place are
those of the complete arrays and of the open ones, and no others. -/
namespace InstructionTables.Dispatch

/-! ## Places -/

/-- The place is before a slot. It is found behind `start`, where `count` slots start below which
`levels` arrays may be nested, and where the arrays called `known` are complete. The arrays called
`opened` are being read, the outermost first, and those called `complete` are complete. -/
inductive Within (config : Config) : (levels count : Nat) → (known : List UInt16) →
    (start : Cursor) → (opened complete : List UInt16) → (place : Cursor) → Prop where
  /-- The slots before the place are complete, and not all of them have come. -/
  | here {levels count : Nat} {known : List UInt16} {start place : Cursor} {done : Forest} :
      done.width < count → done.Fits config levels known → start.Spans done.items place →
      Within config levels count known start [] (known ++ done.names) place
  /-- Behind the complete slots an array is opened, and the place is before one of its slots. -/
  | inside {levels count : Nat} {known opened complete : List UInt16} {size : UInt32}
      {reference : UInt16} {start outer first place : Cursor} {done : Forest} :
      done.width < count → done.Fits config (levels + 1) known → start.Spans done.items outer →
      outer.Spans (Record.array size reference).items first → size ≠ 0 →
      reference ∉ known ++ done.names →
      Within config levels size.toNat (known ++ done.names) first opened complete place →
      Within config (levels + 1) count known start (reference :: opened) complete place

/-- A slot starts at the offset, inside of the arrays called `opened`, the outermost first, and
with the arrays called `complete` before it. -/
def SlotAt (payload : List UInt8) (config : Config) (opened complete : List UInt16)
    (offset : Nat) : Prop :=
  ∃ start, Cursor.afterHeader payload .decoder = .ok start ∧
    Within config (maxDepth - 1) config.slotCount [] start opened complete
      ⟨offset, payload.drop offset⟩

/-- The bytes from the offset on start with the record, in one of the ways to write it. -/
def Record.StandsAt (payload : List UInt8) (offset : Nat) (record : Record) : Prop :=
  ∃ bytes, Item.Spells record.items bytes ∧ bytes <+: payload.drop offset

/-- One record after the other leads to the offset, where one stands that defines an array called
`reference`. -/
def DefinitionAt (payload : List UInt8) (reference : UInt16) (offset : Nat) : Prop :=
  ∃ records size, Reached payload records ⟨offset, payload.drop offset⟩ ∧ size ≠ 0 ∧
    (Record.array size reference).StandsAt payload offset

/-! ## Cursors -/

theorem standsAt_iff {record : Record} :
    record.StandsAt payload offset ↔
      ∃ next, (Cursor.mk offset (payload.drop offset)).Spans record.items next := by
  constructor
  · rintro ⟨bytes, spells, rest, same⟩
    exact ⟨⟨offset + bytes.length, rest⟩, bytes, spells, same.symm, rfl⟩
  · rintro ⟨next, bytes, spells, same, -⟩
    exact ⟨bytes, spells, next.rest, same.symm⟩

/-- A record is longer than nothing. -/
theorem Record.offset_lt {record : Record} {place next : Cursor}
    (spans : place.Spans record.items next) : place.offset < next.offset := by
  obtain ⟨bytes, spells, -, offsetEq⟩ := spans
  have least := Record.minSize_le spells
  rw [Record.minSize] at least
  omega

/-- A place that is reached knows all that is behind it. -/
theorem Reached.place_eq (reached : Reached payload records place) :
    Header.size ≤ place.offset ∧ place = ⟨place.offset, payload.drop place.offset⟩ := by
  obtain ⟨start, accepted, bytes, -, restEq, offsetEq⟩ := reached
  obtain ⟨payloadEq, startEq⟩ := Cursor.afterHeader_ok_iff.mp accepted
  have header : (Header.ofKind .decoder).toBytes.length = Header.size := rfl
  rw [restEq, ← List.append_assoc] at payloadEq
  rw [startEq] at offsetEq
  have length : ((Header.ofKind .decoder).toBytes ++ bytes).length = place.offset := by
    rw [List.length_append, header, offsetEq]
  refine ⟨by omega, ?_⟩
  rw [← length, payloadEq, List.drop_left, length]

/-- No definition starts in the header. -/
theorem DefinitionAt.header_le (found : DefinitionAt payload reference offset) :
    Header.size ≤ offset := by
  obtain ⟨records, size, reached, -⟩ := found
  exact reached.place_eq.1

/-- A record leads from one place that is reached to another one. -/
theorem Reached.behind (reached : Reached payload records place) {record : Record}
    (spans : place.Spans record.items next) : Reached payload (records ++ [record]) next := by
  obtain ⟨start, accepted, before⟩ := reached
  refine ⟨start, accepted, ?_⟩
  rw [List.flatMap_append, List.flatMap_singleton]
  exact before.trans spans

/-- What is read behind the first of two places is the next of the records before the second. -/
theorem mem_of_offset_lt {first last next start : Cursor} {records others : List Record}
    {record : Record} (early : start.Spans (records.flatMap Record.items) first)
    (late : start.Spans (others.flatMap Record.items) last)
    (opening : first.Spans record.items next) (before : first.offset < last.offset) :
    record ∈ others := by
  induction records generalizing start others with
  | nil =>
    obtain rfl := Cursor.spans_nil_iff.mp early
    cases others with
    | nil =>
      obtain rfl := Cursor.spans_nil_iff.mp late
      exact absurd before (Nat.lt_irrefl _)
    | cons other others =>
      obtain ⟨middle, spans, -⟩ := Cursor.spans_append_iff.mp late
      have same := (record_ok_iff.mpr opening).symm.trans (record_ok_iff.mpr spans)
      obtain ⟨rfl, -⟩ := EStateM.Result.ok.inj same
      exact List.mem_cons_self
  | cons record records ih =>
    obtain ⟨middle, spans, behind⟩ := Cursor.spans_append_iff.mp early
    cases others with
    | nil =>
      obtain rfl := Cursor.spans_nil_iff.mp late
      exact absurd before (Nat.not_lt.mpr early.offset_le)
    | cons other others =>
      obtain ⟨past, spansOther, later⟩ := Cursor.spans_append_iff.mp late
      -- The same bytes are read, so the records are the same and end at the same place.
      have same := (record_ok_iff.mpr spans).symm.trans (record_ok_iff.mpr spansOther)
      obtain ⟨rfl, rfl⟩ := EStateM.Result.ok.inj same
      exact List.mem_cons_of_mem _ (ih behind later)

/-! ## Definitions before a place -/

/-- The records before a place define the arrays that are complete there and those that are open. -/
theorem Within.exists_records {config : Config} {known opened complete : List UInt16}
    {start place : Cursor}
    (within : Within config levels count known start opened complete place) :
    ∃ records : List Record, start.Spans (records.flatMap Record.items) place ∧
      ∀ reference, reference ∈ complete ∨ reference ∈ opened ↔
        reference ∈ known ∨ ∃ size, size ≠ 0 ∧ Record.array size reference ∈ records := by
  induction within with
  | here _ fits spans =>
    refine ⟨_, spans, fun reference => ?_⟩
    rw [← Forest.mem_names_iff fits]
    simp
  | @inside levels count known opened complete size name start outer first place done _ fits spans
      opening defined _ _ ih =>
    obtain ⟨records, inner, named⟩ := ih
    refine ⟨done.records ++ .array size name :: records, ?_, fun reference => ?_⟩
    · rw [List.flatMap_append, List.flatMap_cons]
      exact spans.trans (opening.trans inner)
    · have own : (∃ other, other ≠ 0 ∧ other = size ∧ reference = name) ↔ reference = name :=
        ⟨fun ⟨_, _, _, same⟩ => same, fun same => ⟨size, defined, rfl, same⟩⟩
      simp only [List.mem_cons, List.mem_append, Record.array.injEq, and_or_left, exists_or, own,
        ← Forest.mem_names_iff fits] at named ⊢
      rw [or_left_comm, named]
      simp only [or_assoc, or_left_comm]

/-- Fewer arrays are open than may be nested, or as many. -/
theorem Within.length_le {config : Config} {known opened complete : List UInt16}
    {start place : Cursor}
    (within : Within config levels count known start opened complete place) :
    opened.length ≤ levels := by
  induction within with
  | here => exact Nat.zero_le _
  | inside _ _ _ _ _ _ _ ih => exact Nat.succ_le_succ ih

theorem SlotAt.exists_records {config : Config} {opened complete : List UInt16}
    (slot : SlotAt payload config opened complete offset) :
    ∃ records, Reached payload records ⟨offset, payload.drop offset⟩ ∧
      ∀ reference, reference ∈ complete ∨ reference ∈ opened ↔
        ∃ size, size ≠ 0 ∧ Record.array size reference ∈ records := by
  obtain ⟨start, accepted, within⟩ := slot
  obtain ⟨records, spans, named⟩ := within.exists_records
  exact ⟨records, ⟨start, accepted, spans⟩, fun reference => by simpa using named reference⟩

/-- Where one of the records behind a place defines an array, a definition of it starts. -/
theorem Reached.definition_behind (reached : Reached payload records place) {others : List Record}
    (spans : place.Spans (others.flatMap Record.items) last) (defined : size ≠ 0)
    (member : Record.array size reference ∈ others) :
    ∃ offset, place.offset ≤ offset ∧ offset < last.offset ∧
      DefinitionAt payload reference offset := by
  obtain ⟨start, accepted, before⟩ := reached
  obtain ⟨first, later, rfl⟩ := List.append_of_mem member
  rw [List.flatMap_append, List.flatMap_cons] at spans
  obtain ⟨own, early, behind⟩ := Cursor.spans_append_iff.mp spans
  obtain ⟨next, opening, rest⟩ := Cursor.spans_append_iff.mp behind
  have reachedOwn : Reached payload (records ++ first) own := by
    refine ⟨start, accepted, ?_⟩
    rw [List.flatMap_append]
    exact before.trans early
  have stands := Record.offset_lt opening
  have ownEq := reachedOwn.place_eq.2
  rw [ownEq] at reachedOwn opening
  exact ⟨own.offset, early.offset_le, stands.trans_le rest.offset_le, _, size, reachedOwn, defined,
    standsAt_iff.mpr ⟨next, opening⟩⟩

/-- Before a place, one of the records defines an array exactly where a definition of it starts. -/
theorem Reached.definition_before_iff
    (reached : Reached payload records ⟨offset, payload.drop offset⟩) :
    (∃ earlier, earlier < offset ∧ DefinitionAt payload reference earlier) ↔
      ∃ size, size ≠ 0 ∧ Record.array size reference ∈ records := by
  obtain ⟨start, accepted, spans⟩ := reached
  constructor
  · rintro ⟨earlier, before, others, size, ⟨same, again, early⟩, defined, stands⟩
    obtain rfl := Except.ok.inj (accepted.symm.trans again)
    obtain ⟨next, opening⟩ := standsAt_iff.mp stands
    exact ⟨size, defined, mem_of_offset_lt early spans opening before⟩
  · rintro ⟨size, defined, member⟩
    have reachedStart : Reached payload [] start := ⟨start, accepted, Cursor.spans_nil_iff.mpr rfl⟩
    obtain ⟨earlier, -, before, found⟩ := reachedStart.definition_behind spans defined member
    exact ⟨earlier, before, found⟩

/-- The definitions that start before a slot are those of complete and of open arrays. -/
theorem SlotAt.definition_before_iff {config : Config} {opened complete : List UInt16}
    (slot : SlotAt payload config opened complete offset) :
    (∃ earlier, earlier < offset ∧ DefinitionAt payload reference earlier) ↔
      reference ∈ complete ∨ reference ∈ opened := by
  obtain ⟨records, reached, named⟩ := slot.exists_records
  rw [reached.definition_before_iff, named]

end InstructionTables.Dispatch
