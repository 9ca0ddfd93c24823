import InstructionTables.Proofs.RefusedReads
import InstructionTables.Proofs.TemplateAcceptance

/-! The faults of a template payload. The records before the one that is refused have been read and
emitted, so what a fault says depends only on the bytes behind them and on how many templates are
still missing. The main statement gives the fault of every payload with the right header, and so
which record is to blame and why. -/
namespace InstructionTables

namespace Cursor

variable {cursor : Cursor}

theorem advance_zero : cursor.advance 0 = cursor := rfl

theorem advance_advance (first second : Nat) :
    (cursor.advance first).advance second = cursor.advance (first + second) := by
  simp only [advance, List.drop_drop, Nat.add_assoc]

theorem remaining_advance (count : Nat) :
    (cursor.advance count).remaining = cursor.remaining - count :=
  List.length_drop

end Cursor

namespace Template

/-! ## What a record stores -/

namespace OperandSize

theorem ofWidth?_eq_none_iff {bits : UInt32} :
    ofWidth? bits = none ↔ bits ≠ 16 ∧ bits ≠ 32 ∧ bits ≠ 64 := by
  unfold ofWidth?
  split_ifs <;> simp_all

end OperandSize

namespace Kind

/-- The number of bytes that records of this kind store in references, behind the tag. -/
def fieldBytes (kind : Kind) : Nat :=
  2 * (kind.shape.operands + 1)

/-- The records of this kind end with a number, their width or their count. -/
def StoresNumber (kind : Kind) : Prop :=
  kind.shape.hasWidth = true ∨ kind = .pops

/-- What is stored behind the tag of a record of this kind ends before the record does. -/
def EndsInside (kind : Kind) (stored : List UInt8) : Prop :=
  stored.length < kind.fieldBytes ∨
    kind.StoresNumber ∧ Varint.Unfinished (stored.drop kind.fieldBytes)

end Kind

namespace Family

/-- What is stored behind the tag of the record at the offset cannot be read. -/
inductive Misread (kind : Kind) (offset : Nat) (stored : List UInt8) : Fault → Prop where
  /-- The payload ends first. -/
  | cut :
      kind.EndsInside stored →
      Misread kind offset stored (.malformedRecord offset (Ordinal.name kind) .truncated)
  /-- The number behind the references does not fit. -/
  | overflow :
      kind.StoresNumber → Varint.Overflows (stored.drop kind.fieldBytes) →
      Misread kind offset stored (.invalidVarint (offset + 1 + kind.fieldBytes))
  /-- The number is the width of no operand. -/
  | width {bits : UInt32} {number : List UInt8} :
      kind.shape.hasWidth = true → Varint.Spelling bits number →
      number <+: stored.drop kind.fieldBytes → bits ≠ 16 ∧ bits ≠ 32 ∧ bits ≠ 64 →
      Misread kind offset stored (.malformedRecord offset (Ordinal.name kind) (.invalidWidth bits))
  /-- The number is no count of siblings. -/
  | count {count : UInt32} {number : List UInt8} :
      kind = .pops → Varint.Spelling count number → number <+: stored.drop kind.fieldBytes →
      count = 0 ∨ 32 < count →
      Misread kind offset stored
        (.malformedRecord offset (Ordinal.name kind) (.invalidVariantCount count))

variable {cursor : Cursor} {kind : Kind} {start count : Nat} {fault : Fault}

theorem readOperands_succ_ends_iff {after : Cursor} :
    (∃ operands, (readOperands (count + 1)).run cursor = .ok operands after) ↔
      ∃ middle, (∃ value, Read.reference.run cursor = .ok value middle) ∧
        ∃ operands, (readOperands count).run middle = .ok operands after := by
  simp only [readOperands, run_bind_eq_ok, run_pure_eq_ok]
  constructor
  · rintro ⟨_, value, middle, ran, operands, _, others, rfl, rfl⟩
    exact ⟨middle, ⟨value, ran⟩, operands, others⟩
  · rintro ⟨middle, ⟨value, ran⟩, operands, others⟩
    exact ⟨_, value, middle, ran, operands, after, others, rfl, rfl⟩

theorem readOperands_succ_refuses_iff :
    Refuses (readOperands (count + 1)) cursor fault ↔
      Refuses Read.reference cursor fault ∨
        ∃ middle, (∃ value, Read.reference.run cursor = .ok value middle) ∧
          Refuses (readOperands count) middle fault := by
  simp only [readOperands, refuses_bind_iff, not_refuses_pure, and_false, exists_false, or_false]
  rw [exists_comm]
  simp only [exists_and_right]

/-- References are read if all their bytes are there. -/
theorem readOperands_ends_iff {after : Cursor} :
    (∃ operands, (readOperands count).run cursor = .ok operands after) ↔
      2 * count ≤ cursor.remaining ∧ after = cursor.advance (2 * count) := by
  induction count generalizing cursor with
  | zero => simp [readOperands, Cursor.advance_zero, eq_comm]
  | succ count ih =>
    have both : 2 ≤ cursor.remaining ∧ 2 * count ≤ cursor.remaining - 2 ↔
        2 * count + 2 ≤ cursor.remaining := by omega
    simp only [readOperands_succ_ends_iff, ih, Read.reference_ends_iff, and_assoc,
      exists_and_left, exists_eq_left, Cursor.remaining_advance, Cursor.advance_advance,
      Nat.mul_succ, Nat.add_comm 2]
    rw [← and_assoc, both]

/-- References are refused at the first one that is cut off. -/
theorem readOperands_refuses_iff :
    Refuses (readOperands count) cursor fault ↔ cursor.remaining < 2 * count ∧
      fault = .truncated (cursor.offset + 2 * (cursor.remaining / 2))
        (2 - cursor.remaining % 2) := by
  induction count generalizing cursor with
  | zero => simp [readOperands, not_refuses_pure]
  | succ count ih =>
    simp only [readOperands_succ_refuses_iff, ih, Read.reference_refuses_iff,
      Read.reference_ends_iff, and_assoc, exists_and_left, exists_eq_left,
      Cursor.remaining_advance]
    rcases Nat.lt_or_ge cursor.remaining 2 with few | enough
    · have half : cursor.remaining / 2 = 0 := by omega
      have odd : cursor.remaining % 2 = cursor.remaining := by omega
      have short : cursor.remaining < 2 * (count + 1) := by omega
      simp [half, odd, few, short, Nat.not_le.mpr few]
    · have half : (cursor.advance 2).offset + 2 * ((cursor.remaining - 2) / 2) =
          cursor.offset + 2 * (cursor.remaining / 2) := by
        simp only [Cursor.advance]
        omega
      have odd : (cursor.remaining - 2) % 2 = cursor.remaining % 2 := by omega
      have short : cursor.remaining - 2 < 2 * count ↔ cursor.remaining < 2 * (count + 1) := by
        omega
      simp [half, odd, enough, short, Nat.not_lt.mpr enough]

/-- A width is refused like any number, and where no size has it. -/
theorem readSize_refuses_iff :
    Refuses (readSize kind start) cursor fault ↔
      Varint.Unfinished cursor.rest ∧ fault = .truncated (cursor.offset + cursor.remaining) 1 ∨
      Varint.Overflows cursor.rest ∧ fault = .invalidVarint cursor.offset ∨
      ∃ bits number, Varint.Spelling bits number ∧ number <+: cursor.rest ∧
        (bits ≠ 16 ∧ bits ≠ 32 ∧ bits ≠ 64) ∧
          fault = .malformedRecord start (Ordinal.name kind) (.invalidWidth bits) := by
  apply Read.number_refuses_iff
  intro bits after
  rw [← OperandSize.ofWidth?_eq_none_iff]
  cases OperandSize.ofWidth? bits <;> simp [not_refuses_pure, refuses_throw_iff, refuse]

/-- A count is refused like any number, and where it is out of range. -/
theorem readCount_refuses_iff :
    Refuses (readCount kind start) cursor fault ↔
      Varint.Unfinished cursor.rest ∧ fault = .truncated (cursor.offset + cursor.remaining) 1 ∨
      Varint.Overflows cursor.rest ∧ fault = .invalidVarint cursor.offset ∨
      ∃ count number, Varint.Spelling count number ∧ number <+: cursor.rest ∧
        (count = 0 ∨ 32 < count) ∧
          fault = .malformedRecord start (Ordinal.name kind) (.invalidVariantCount count) := by
  apply Read.number_refuses_iff
  intro count after
  rw [Emission.maxStoredCount]
  split <;> rename_i range <;> simp [not_refuses_pure, refuses_throw_iff, refuse, range]

/-- What is stored behind the references is refused like any number, for a width that no size has
or for a count that is out of range. -/
theorem readNumber_refuses_iff :
    (Refuses (readStoredSize kind start) cursor fault ∨
      ∃ size after, (readStoredSize kind start).run cursor = .ok size after ∧
        Refuses (readStoredCount kind start) after fault) ↔
      kind.StoresNumber ∧
        (Varint.Unfinished cursor.rest ∧ fault = .truncated (cursor.offset + cursor.remaining) 1 ∨
          Varint.Overflows cursor.rest ∧ fault = .invalidVarint cursor.offset) ∨
      kind.shape.hasWidth = true ∧
        (∃ bits number, Varint.Spelling bits number ∧ number <+: cursor.rest ∧
          (bits ≠ 16 ∧ bits ≠ 32 ∧ bits ≠ 64) ∧
            fault = .malformedRecord start (Ordinal.name kind) (.invalidWidth bits)) ∨
      kind = .pops ∧
        ∃ count number, Varint.Spelling count number ∧ number <+: cursor.rest ∧
          (count = 0 ∨ 32 < count) ∧
            fault = .malformedRecord start (Ordinal.name kind) (.invalidVariantCount count) := by
  -- No kind stores both a width and a count.
  by_cases counted : kind = .pops
  · subst counted
    have width : readStoredSize .pops start = pure .unmarked := rfl
    have count : readStoredCount .pops start = readCount .pops start := rfl
    have noWidth : Kind.pops.shape.hasWidth = false := rfl
    simp [width, count, noWidth, not_refuses_pure, readCount_refuses_iff, Kind.StoresNumber,
      or_assoc]
  · obtain ⟨emitted, emits⟩ := Option.ne_none_iff_exists'.mp
      (mt kind.emissionCount?_eq_none_iff.mp counted)
    have count : readStoredCount kind start = pure emitted := by rw [readStoredCount, emits]
    cases stores : kind.shape.hasWidth with
    | false =>
      have width : readStoredSize kind start = pure .unmarked := by
        rw [readStoredSize, stores]
        rfl
      simp [width, count, counted, stores, not_refuses_pure, Kind.StoresNumber]
    | true =>
      have width : readStoredSize kind start = readSize kind start := by
        rw [readStoredSize, stores]
        rfl
      simp [width, count, counted, stores, not_refuses_pure, readSize_refuses_iff,
        Kind.StoresNumber, or_assoc]

/-- The body of a record is refused for its references or for what is behind them. -/
theorem readBody_refuses_iff :
    Refuses (readBody kind start) cursor fault ↔
      Refuses (readOperands (kind.shape.operands + 1)) cursor fault ∨
      kind.fieldBytes ≤ cursor.remaining ∧
        (Refuses (readStoredSize kind start) (cursor.advance kind.fieldBytes) fault ∨
          ∃ size after,
            (readStoredSize kind start).run (cursor.advance kind.fieldBytes) = .ok size after ∧
              Refuses (readStoredCount kind start) after fault) := by
  have ends (after : Cursor) : (∃ middle, (∃ value, Read.reference.run cursor = .ok value middle) ∧
      ∃ operands, (readOperands kind.shape.operands).run middle = .ok operands after) ↔
        kind.fieldBytes ≤ cursor.remaining ∧ after = cursor.advance kind.fieldBytes := by
    rw [← readOperands_succ_ends_iff, readOperands_ends_iff, Kind.fieldBytes]
  simp only [readBody_eq, refuses_bind_iff, not_refuses_pure, and_false, exists_false, or_false,
    readOperands_succ_refuses_iff]
  constructor
  · rintro (cut | ⟨value, middle, ran, cut | ⟨operands, after, others, refused⟩⟩)
    · exact Or.inl (Or.inl cut)
    · exact Or.inl (Or.inr ⟨middle, ⟨value, ran⟩, cut⟩)
    · obtain ⟨enough, rfl⟩ := (ends after).mp ⟨middle, ⟨value, ran⟩, operands, others⟩
      exact Or.inr ⟨enough, refused⟩
  · rintro ((cut | ⟨middle, ⟨value, ran⟩, cut⟩) | ⟨enough, refused⟩)
    · exact Or.inl cut
    · exact Or.inr ⟨value, middle, ran, Or.inl cut⟩
    · obtain ⟨middle, ⟨value, ran⟩, operands, others⟩ := (ends _).mpr ⟨enough, rfl⟩
      exact Or.inr ⟨value, middle, ran, Or.inr ⟨operands, _, others, refused⟩⟩

/-- With the truncations of a record told as its own, its body is refused where it cannot be
read. -/
theorem blamed_refuses_iff {offset : Nat} {stored : List UInt8} :
    Refuses ((readBody kind offset).mapFault (blameRecord kind offset)) ⟨offset + 1, stored⟩
      fault ↔ Misread kind offset stored fault := by
  rw [Read.mapFault_refuses_iff]
  simp only [readBody_refuses_iff, readOperands_refuses_iff, readNumber_refuses_iff]
  constructor
  · rintro ⟨_, ⟨short, rfl⟩ | ⟨-, ⟨stores, ⟨cut, rfl⟩ | ⟨large, rfl⟩⟩ |
      ⟨stores, bits, number, spelled, begins, unknown, rfl⟩ |
      ⟨stores, count, number, spelled, begins, range, rfl⟩⟩, rfl⟩
    · exact .cut (Or.inl short)
    · exact .cut (Or.inr ⟨stores, cut⟩)
    · exact .overflow stores large
    · exact .width stores spelled begins unknown
    · exact .count stores spelled begins range
  · intro misread
    have enough (some : stored.drop kind.fieldBytes ≠ []) : kind.fieldBytes ≤ stored.length := by
      by_contra short
      exact some (List.drop_eq_nil_of_le (Nat.le_of_not_le short))
    cases misread with
    | cut ends =>
      by_cases short : stored.length < kind.fieldBytes
      · exact ⟨_, Or.inl ⟨short, rfl⟩, rfl⟩
      · obtain ⟨stores, cut⟩ := ends.resolve_left short
        exact ⟨_, Or.inr ⟨Nat.le_of_not_lt short, Or.inl ⟨stores, Or.inl ⟨cut, rfl⟩⟩⟩, rfl⟩
    | overflow stores large =>
      have some : stored.drop kind.fieldBytes ≠ [] := by
        intro none
        obtain ⟨fifth, found, -⟩ := large.2
        rw [none] at found
        cases found
      exact ⟨_, Or.inr ⟨enough some, Or.inl ⟨stores, Or.inr ⟨large, rfl⟩⟩⟩, rfl⟩
    | width stores spelled begins unknown =>
      have some := List.IsPrefix.ne_nil begins (List.length_pos_iff.mp spelled.length_pos)
      exact ⟨_, Or.inr ⟨enough some, Or.inr (Or.inl ⟨stores, _, _, spelled, begins, unknown, rfl⟩)⟩,
        rfl⟩
    | count stores spelled begins range =>
      have some := List.IsPrefix.ne_nil begins (List.length_pos_iff.mp spelled.length_pos)
      exact ⟨_, Or.inr ⟨enough some, Or.inr (Or.inr ⟨stores, _, _, spelled, begins, range, rfl⟩)⟩,
        rfl⟩

end Family

/-! ## Records -/

/-- No record can be read at the offset. -/
inductive Unreadable (offset : Nat) : List UInt8 → Fault → Prop where
  /-- No record starts there. -/
  | ended : Unreadable offset [] (.truncated offset 1)
  /-- The byte there is no tag. -/
  | unknown {value : UInt8} {rest : List UInt8} :
      53 ≤ value.toNat → Unreadable offset (value :: rest) (.invalidTag "CtorKind" value offset)
  /-- Behind the tag of a family its body cannot be read. -/
  | misread {kind : Kind} {stored : List UInt8} {fault : Fault} :
      kind.shape.emission.isFold = false → Family.Misread kind offset stored fault →
      Unreadable offset (Tag.byte kind :: stored) fault

/-- The record at the offset cannot be emitted where `done` templates of `limit` have been emitted
before it: there is none to repeat, or a family has more templates than are missing. -/
def Unemitted (limit done offset : Nat) : Record → Fault → Prop
  | .previous, fault => done = 0 ∧
      fault = .malformedRecord offset (Ordinal.name Kind.previous) .noCurrentTemplate
  | .reverse, fault => done = 0 ∧
      fault = .malformedRecord offset (Ordinal.name Kind.reverse) .noCurrentTemplate
  | .family family, fault => limit - done < family.count ∧
      fault = .malformedRecord offset (Ordinal.name family.kind)
        (.tooManyTemplates family.count (limit - done))

/-- The record at the offset is refused, where `done` templates of `limit` have been emitted before
it. -/
inductive RecordRefused (limit done offset : Nat) (rest : List UInt8) : Fault → Prop where
  | unreadable {fault : Fault} :
      Unreadable offset rest fault → RecordRefused limit done offset rest fault
  | unemitted {record : Record} {bytes : List UInt8} {fault : Fault} :
      record.WellFormed → record.Listing bytes → bytes <+: rest →
      Unemitted limit done offset record fault → RecordRefused limit done offset rest fault

/-- The payload is refused at the offset, behind records that emit `done` templates of `limit`. -/
inductive RefusedAt (limit done offset : Nat) (rest : List UInt8) : Fault → Prop where
  /-- Templates are missing, and the next record is refused. -/
  | record {fault : Fault} :
      done < limit → RecordRefused limit done offset rest fault →
      RefusedAt limit done offset rest fault
  /-- No template is missing, and bytes are left over. -/
  | left :
      done = limit → rest ≠ [] →
      RefusedAt limit done offset rest (.trailingData offset rest.length)

section Steps

variable {offset limit : Nat} {rest : List UInt8} {fault : Fault}

theorem read_refuses_iff :
    Refuses Record.read ⟨offset, rest⟩ fault ↔ Unreadable offset rest fault := by
  simp only [Record.read, refuses_bind_iff, Read.not_refuses_offset, false_or, Read.offset_ok_iff,
    Read.tag_refuses_iff, Read.tag_ok_iff]
  constructor
  · rintro ⟨_, _, ⟨rfl, rfl⟩, (⟨rfl, rfl⟩ | ⟨value, rest, rfl, unknown, rfl⟩) |
      ⟨kind, middle, opening, refused⟩⟩
    · exact .ended
    · exact .unknown unknown
    · obtain ⟨_, stored, rfl, rfl, rfl⟩ := Cursor.spans_singleton_iff.mp opening
      cases emits : kind.shape.emission with
      | previous | reverse =>
        rw [emits] at refused
        exact absurd refused not_refuses_pure
      | _ =>
        have described : kind.shape.emission.isFold = false := by rw [emits]; rfl
        simp only [emits, refuses_bind_iff, not_refuses_pure, and_false, exists_false,
          or_false] at refused
        exact .misread described (Family.blamed_refuses_iff.mp refused)
  · intro unreadable
    refine ⟨_, _, ⟨rfl, rfl⟩, ?_⟩
    cases unreadable with
    | ended => exact Or.inl (Or.inl ⟨rfl, rfl⟩)
    | unknown unknown => exact Or.inl (Or.inr ⟨_, _, rfl, unknown, rfl⟩)
    | @misread kind stored _ described misread =>
      have opening : (Cursor.mk offset (Tag.byte kind :: stored)).Spans [.tag kind]
          ⟨offset + 1, stored⟩ :=
        Cursor.spans_singleton_iff.mpr ⟨[Tag.byte kind], stored, rfl, rfl, rfl⟩
      have refused := Family.blamed_refuses_iff.mpr misread
      refine Or.inr ⟨kind, _, opening, ?_⟩
      cases emits : kind.shape.emission with
      | previous | reverse =>
        rw [emits] at described
        cases described
      | _ =>
        simp only [refuses_bind_iff]
        exact Or.inl refused

variable {before : Build.State Emitted} {done : List Template} {kind : Kind}

/-- A fold is refused where there is no template to repeat. -/
theorem emitFold_refuses_iff {change : Template → Template} (held : before.made.Holds done) :
    Refuses (emitFold kind change offset) before fault ↔
      done.length = 0 ∧
        fault = .malformedRecord offset (Ordinal.name kind) .noCurrentTemplate := by
  have none : before.made.templates.back? = none ↔ done.length = 0 := by
    rw [held.back?_eq, Option.map_eq_none_iff, List.getLast?_eq_none_iff, List.length_eq_zero_iff]
  rw [← none]
  simp only [Refuses, EStateM.run, emitFold]
  cases before.made.templates.back? <;> simp [Family.refuse, eq_comm]

theorem emit_refuses_iff {record : Record} (held : before.made.Holds done) :
    Refuses (emit limit offset record) before fault ↔
      Unemitted limit done.length offset record fault := by
  cases record with
  | previous => exact emitFold_refuses_iff held
  | reverse => exact emitFold_refuses_iff held
  | family family =>
    simp only [Refuses, emit, emitFamily_run, held.size_eq, Unemitted]
    split <;> rename_i room <;> simp [Family.refuse, room, eq_comm]

/-- A record is refused where it cannot be read or cannot be emitted. -/
theorem readRecord_refuses_iff (held : before.made.Holds done) :
    Refuses (readRecord limit) before fault ↔
      RecordRefused limit done.length before.cursor.offset before.cursor.rest fault := by
  simp only [readRecord, refuses_bind_iff, Build.ofRead_refuses_iff, Read.not_refuses_offset,
    false_or, Build.ofRead_ok_iff, Read.offset_ok_iff, Record.read_ok_iff]
  constructor
  · rintro ⟨_, ⟨_, _⟩, ⟨⟨rfl, rfl⟩, rfl⟩, unread | ⟨record, ⟨cursor, _⟩,
      ⟨⟨wellFormed, bytes, spells, restEq, -⟩, rfl⟩, refused⟩⟩
    · exact .unreadable (read_refuses_iff.mp unread)
    · have sameHeld : (⟨cursor, before.made⟩ : Build.State Emitted).made.Holds done := held
      exact .unemitted wellFormed ((Record.listing_iff wellFormed).mpr spells)
        ⟨cursor.rest, restEq.symm⟩ ((emit_refuses_iff sameHeld).mp refused)
  · intro refused
    refine ⟨_, before, ⟨⟨rfl, rfl⟩, rfl⟩, ?_⟩
    cases refused with
    | unreadable unreadable => exact Or.inl (read_refuses_iff.mpr unreadable)
    | @unemitted record bytes _ wellFormed listing begins refused =>
      obtain ⟨rest, restEq⟩ := begins
      let next : Cursor := ⟨before.cursor.offset + bytes.length, rest⟩
      have spans : before.cursor.Spans record.items next :=
        ⟨bytes, (Record.listing_iff wellFormed).mp listing, restEq.symm, rfl⟩
      have sameHeld : (⟨next, before.made⟩ : Build.State Emitted).made.Holds done := held
      exact Or.inr ⟨record, ⟨next, before.made⟩, ⟨⟨wellFormed, spans⟩, rfl⟩,
        (emit_refuses_iff sameHeld).mpr refused⟩

/-- Where others fill what a record leaves, the record does not emit more than is asked for. -/
theorem Fills.behind {record : Record} {records : List Record} (wellFormed : record.WellFormed)
    (emits : record.Emits limit done)
    (fills : Fills reached (done ++ record.expansion done.getLast?) records) :
    Fills reached done (record :: records) := by
  refine fills_cons_iff.mpr ⟨wellFormed, ?_, fills⟩
  cases record with
  | previous | reverse => exact emits
  | family described =>
    have total := fills.total
    rw [List.length_append, Record.expansion_length wellFormed emits] at total
    rw [Record.Emits, ← Record.emissionCount]
    omega

/-- A run is refused for the record behind those that it has emitted. -/
theorem readRecords_refuses_iff (held : before.made.Holds done) (bounded : done.length ≤ limit)
    (enough : limit ≤ done.length + fuel) :
    Refuses (readRecords limit fuel) before fault ↔
      ∃ records reached last, Fills reached done records ∧
        before.cursor.Spans (records.flatMap Record.items) last ∧ reached < limit ∧
        RecordRefused limit reached last.offset last.rest fault := by
  constructor
  · rintro ⟨after, ran⟩
    induction fuel generalizing before done with
    | zero => cases ran
    | succ fuel ih =>
      rw [readRecords_succ_run, held.size_eq] at ran
      split at ran
      · rename_i missing
        split at ran
        · rename_i next readOne
          obtain ⟨record, wellFormed, emits, spans, nextHeld, longer, within⟩ :=
            readRecord_sound held missing readOne
          obtain ⟨records, reached, last, fills, others, fewer, refused⟩ :=
            ih nextHeld within (by omega) ran
          exact ⟨record :: records, reached, last, Fills.behind wellFormed emits fills,
            spans.trans others, fewer, refused⟩
        · rename_i readOne
          cases ran
          exact ⟨[], done.length, before.cursor, fills_nil_iff.mpr rfl,
            Cursor.spans_nil_iff.mpr rfl, missing,
            (readRecord_refuses_iff held).mp ⟨_, readOne⟩⟩
      · cases ran
  · rintro ⟨records, reached, last, fills, spans, fewer, refused⟩
    obtain ⟨made, left, result, fuelLeft, ran⟩ :=
      readRecords_through held fills (Nat.le_of_lt fewer) enough spans
    have lastHeld : (⟨last, made⟩ : Build.State Emitted).made.Holds
        (done ++ expansions done.getLast? records) := result
    have size : (done ++ expansions done.getLast? records).length = reached := by
      rw [List.length_append, fills.expansions_length]
    rw [← size] at refused
    obtain ⟨after, failed⟩ := (readRecord_refuses_iff lastHeld).mpr refused
    obtain ⟨left, rfl⟩ := Nat.exists_eq_add_of_le' (by omega : 1 ≤ left)
    refine ⟨after, ?_⟩
    rw [ran, readRecords_succ_run, result.size_eq, size, if_pos fewer, failed]

end Steps

/-! ## Whole payloads -/

/-- Records that fill as much of a table as they emit, with the bytes that they are listed as. -/
theorem fills_spans_iff {records : List Record} {reached : Nat} {start last : Cursor} :
    Fills reached [] records ∧ start.Spans (records.flatMap Record.items) last ↔
      ∃ pieces : List (List UInt8), start.rest = pieces.flatten ++ last.rest ∧
        List.Forall₂ Record.Listing records pieces ∧ (∀ record ∈ records, record.WellFormed) ∧
        (records.head? ≠ some .previous ∧ records.head? ≠ some .reverse) ∧
        (records.map Record.emissionCount).sum = reached ∧
        start.offset + pieces.flatten.length = last.offset := by
  constructor
  · rintro ⟨⟨wellFormed, opening, total⟩, bytes, spells, restEq, offsetEq⟩
    obtain ⟨pieces, listings, rfl⟩ := (listings_iff wellFormed).mpr spells
    exact ⟨pieces, restEq, listings, wellFormed, opening rfl, (Nat.zero_add _).symm.trans total,
      offsetEq.symm⟩
  · rintro ⟨pieces, restEq, listings, wellFormed, opening, total, offsetEq⟩
    exact ⟨⟨wellFormed, fun _ => opening, (Nat.zero_add _).trans total⟩, pieces.flatten,
      (listings_iff wellFormed).mp ⟨pieces, listings, rfl⟩, restEq, offsetEq.symm⟩

/-- Behind the header, a payload is refused by the records or for what they leave over. -/
theorem ofBytes_body_error_iff {body : List UInt8} {instructionCount : Nat} {fault : Fault} :
    Table.ofBytes ((Header.ofKind .formatter).toBytes ++ body) instructionCount = .error fault ↔
      ∃ records reached last, (Fills reached [] records ∧
        (Cursor.mk Header.size body).Spans (records.flatMap Record.items) last) ∧
        RefusedAt instructionCount reached last.offset last.rest fault := by
  have accepted : Cursor.afterHeader ((Header.ofKind .formatter).toBytes ++ body) .formatter =
      .ok ⟨Header.size, body⟩ :=
    Cursor.afterHeader_ok_iff.mpr ⟨rfl, rfl⟩
  have nothing :
      (Build.State.mk ⟨Header.size, body⟩ ({} : Emitted)).made.Holds [] := rfl
  have refuses_iff := @readRecords_refuses_iff instructionCount fault _ [] instructionCount nothing
    (Nat.zero_le _) (Nat.le_add_left _ _)
  rw [Table.ofBytes, Table.build, Build.report_result_error_iff, accepted]
  simp only [reduceCtorEq, false_or, Except.ok.injEq, exists_eq_left']
  constructor
  · rintro (refused | ⟨table, ⟨last, made⟩, ran, left, rfl⟩)
    · simp only [readTable, refuses_bind_iff, Build.not_refuses_made, not_refuses_pure, and_false,
        exists_false, or_false, refuses_iff] at refused
      obtain ⟨records, reached, last, fills, spans, fewer, refused⟩ := refused
      exact ⟨records, reached, last, ⟨fills, spans⟩, .record fewer refused⟩
    · obtain ⟨records, fills, spans, -⟩ := readTable_ok_iff.mp ⟨made, ran⟩
      exact ⟨records, _, last, ⟨fills, spans⟩, .left rfl left⟩
  · rintro ⟨records, reached, last, ⟨fills, spans⟩, refused⟩
    cases refused with
    | record fewer refused =>
      refine Or.inl (refuses_bind_iff.mpr (Or.inl (refuses_iff.mpr ?_)))
      exact ⟨records, reached, last, fills, spans, fewer, refused⟩
    | left full left =>
      subst full
      let table : Table := ⟨(numbered (expansions none records)).toArray⟩
      obtain ⟨made, ran⟩ := (@readTable_ok_iff _ table _ _).mpr ⟨records, fills, spans, rfl⟩
      exact Or.inr ⟨table, ⟨last, made⟩, ran, left, rfl⟩

/-- A payload with the right header is refused exactly as follows. Some records that agree with
their kinds, the first one no fold, have been read, and the fault is that of what comes behind
them. -/
theorem ofBytes_error_iff {body : List UInt8} {instructionCount : Nat} {fault : Fault} :
    Table.ofBytes ((Header.ofKind .formatter).toBytes ++ body) instructionCount = .error fault ↔
      ∃ (records : List Record) (pieces : List (List UInt8)) (rest : List UInt8),
        body = pieces.flatten ++ rest ∧ List.Forall₂ Record.Listing records pieces ∧
        (∀ record ∈ records, record.WellFormed) ∧
        (records.head? ≠ some .previous ∧ records.head? ≠ some .reverse) ∧
        RefusedAt instructionCount (records.map Record.emissionCount).sum
          (Header.size + pieces.flatten.length) rest fault := by
  simp only [ofBytes_body_error_iff, fills_spans_iff]
  constructor
  · rintro ⟨records, _, ⟨_, rest⟩,
      ⟨pieces, bodyEq, listings, wellFormed, opening, rfl, rfl⟩, refused⟩
    exact ⟨records, pieces, rest, bodyEq, listings, wellFormed, opening, refused⟩
  · rintro ⟨records, pieces, rest, bodyEq, listings, wellFormed, opening, refused⟩
    exact ⟨records, _, ⟨_, rest⟩,
      ⟨pieces, bodyEq, listings, wellFormed, opening, rfl, rfl⟩, refused⟩

end Template

end InstructionTables
