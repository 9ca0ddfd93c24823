import InstructionTables.Proofs.RefusedReads

/-! Reads that follow one another, whether they succeed or fail. A read that succeeds takes the
bytes of its value, one that fails takes none, and only a byte that is no tag is passed over by the
read that refuses it. So no sequence of reads leaves the payload, and wherever it has come to, the
next read goes by the bytes at its place alone. -/
namespace InstructionTables

/-- One of the reads that a payload can be asked for. -/
inductive Call : Type 1 where
  | byte
  | tag (α : Type) [Tag α]
  | varint
  | reference

namespace Call

/-- The type of what is read. -/
def Value : Call → Type
  | byte => UInt8
  | tag α => α
  | varint => UInt32
  | reference => UInt16

/-- The read itself. -/
def read : (call : Call) → Read call.Value
  | byte => Read.byte
  | tag α => Read.tag α
  | varint => Read.varint
  | reference => Read.reference

/-- The item that stands for a value. -/
def item : (call : Call) → call.Value → Item
  | byte, value => .byte value
  | @tag α _, value => @Item.tag α _ value
  | varint, value => .varint value
  | reference, value => .reference value

/-- The number of bytes that are read, where it is fixed. -/
def size? : Call → Option Nat
  | byte => some 1
  | tag _ => some 1
  | varint => none
  | reference => some 2

/-- The place after a read, also after one that fails. -/
def after (call : Call) (cursor : Cursor) : Cursor :=
  match call.read.run cursor with
  | .ok _ after => after
  | .error _ after => after

/-- The place after reads in order, each of which is made whether or not those before it failed. -/
def afterAll (start : Cursor) (calls : List Call) : Cursor :=
  calls.foldl (fun cursor call => call.after cursor) start

/-- Why a read fails at a place, and where it leaves the cursor. -/
inductive Fails (cursor : Cursor) : Call → Fault → Cursor → Prop where
  /-- Fewer bytes are left than the read takes. -/
  | short {call : Call} {size : Nat} : call.size? = some size → cursor.remaining < size →
      Fails cursor call (.truncated cursor.offset (size - cursor.remaining)) cursor
  /-- The bytes that are left end inside of a number. -/
  | unfinished : Varint.Unfinished cursor.rest →
      Fails cursor varint (.truncated (cursor.offset + cursor.remaining) 1) cursor
  /-- The number is too large or too long. -/
  | overflows : Varint.Overflows cursor.rest →
      Fails cursor varint (.invalidVarint cursor.offset) cursor
  /-- The byte is read, but it is no tag. -/
  | unknown {α : Type} [Tag α] {value : UInt8} {rest : List UInt8} :
      cursor.rest = value :: rest → Ordinal.count α ≤ value.toNat →
      Fails cursor (tag α) (.invalidTag (Tag.label α) value cursor.offset) (cursor.advance 1)

/-! ## One read -/

section Read

variable {call : Call} {cursor : Cursor}

/-- A read succeeds where its value is spelled. -/
theorem read_eq_ok_iff {value : call.Value} {past : Cursor} :
    call.read.run cursor = .ok value past ↔ cursor.Spans [call.item value] past := by
  cases call with
  | byte => exact Read.byte_ok_iff
  | @tag α _ => exact @Read.tag_ok_iff α _ _ _ _
  | varint => exact Read.varint_ok_iff
  | reference => exact Read.reference_ok_iff

theorem spelling_length_fixed {value : call.Value} (spelled : (call.item value).Spelling bytes)
    (fixed : call.size? = some size) : bytes.length = size := by
  cases call with
  | varint => cases fixed
  | byte | tag | reference =>
    cases fixed
    exact congrArg List.length spelled

/-- Every value takes between one and five bytes. -/
theorem spelling_length {value : call.Value} (spelled : (call.item value).Spelling bytes) :
    1 ≤ bytes.length ∧ bytes.length ≤ 5 := by
  cases call with
  | varint => exact ⟨Varint.Spelling.length_pos spelled, (Varint.spelling_iff.mp spelled).2⟩
  | byte | tag | reference =>
    rw [spelling_length_fixed spelled rfl]
    decide

theorem tag_run (α : Type) [Tag α] (value : UInt8) (rest : List UInt8) (offset : Nat) :
    (Read.tag α).run ⟨offset, value :: rest⟩ = match Tag.ofByte? value with
      | some found => .ok found ⟨offset + 1, rest⟩
      | none => .error (.invalidTag (Tag.label α) value offset) ⟨offset + 1, rest⟩ := by
  change EStateM.run (match Tag.ofByte? value with
    | some found => pure found
    | none => throw _ : Read α) _ = _
  cases (Tag.ofByte? value : Option α) <;> rfl

/-- A read that fails has one of these reasons. -/
theorem fails_of_error {fault : Fault} {past : Cursor}
    (failed : call.read.run cursor = .error fault past) : Fails cursor call fault past := by
  obtain ⟨offset, rest⟩ := cursor
  cases call with
  | byte =>
    cases rest <;> cases failed
    exact @Fails.short _ byte 1 rfl Nat.zero_lt_one
  | @tag α _ =>
    cases rest with
    | nil =>
      cases failed
      exact @Fails.short _ (tag α) 1 rfl Nat.zero_lt_one
    | cons value rest =>
      have ran := (tag_run α value rest offset).symm.trans failed
      split at ran <;> cases ran
      rename_i none
      exact .unknown rfl (Ordinal.ofOrdinal?_eq_none_iff.mp none)
  | varint =>
    change Read.varint _ = _ at failed
    rw [Read.varint] at failed
    split at failed
    · cases failed
    · rename_i cut
      cases failed
      exact .unfinished (Varint.decode_eq_incomplete_iff.mp cut)
    · rename_i large
      cases failed
      exact .overflows (Varint.decode_eq_overflow_iff.mp large)
  | reference =>
    obtain _ | ⟨low, _ | ⟨high, rest⟩⟩ := rest <;> cases failed
    · exact @Fails.short _ reference 2 rfl Nat.zero_lt_two
    · exact @Fails.short _ reference 2 rfl Nat.one_lt_two

/-- A read that succeeds takes the bytes of its value, and reads them alike wherever they are. -/
theorem takes_of_ok {value : call.Value} {past : Cursor}
    (succeeded : call.read.run cursor = .ok value past) :
    ∃ length, length ≤ cursor.remaining ∧ past = cursor.advance length ∧
      (call.item value).Spelling (cursor.rest.take length) ∧
      (1 ≤ length ∧ length ≤ 5 ∧ ∀ size, call.size? = some size → length = size) ∧
      ∀ other, other.rest.take length = cursor.rest.take length →
        call.read.run other = .ok value (other.advance length) := by
  obtain ⟨bytes, rest, spelled, restEq, rfl⟩ :=
    Cursor.spans_singleton_iff.mp (read_eq_ok_iff.mp succeeded)
  have taken : cursor.rest.take bytes.length = bytes := by rw [restEq, List.take_left]
  obtain ⟨positive, short⟩ := spelling_length spelled
  refine ⟨bytes.length, ?_, rfl, taken.symm ▸ spelled,
    ⟨positive, short, fun size => spelling_length_fixed spelled⟩, ?_⟩
  · rw [Cursor.remaining, restEq, List.length_append]
    exact Nat.le_add_right _ _
  · intro other same
    rw [taken] at same
    have split : other.rest = bytes ++ other.rest.drop bytes.length := by
      conv_lhs => rw [← List.take_append_drop bytes.length other.rest, same]
    exact read_eq_ok_iff.mpr (Cursor.spans_singleton_iff.mpr ⟨bytes, _, spelled, split, rfl⟩)

end Read

end Call

/-! ## Reads in order -/

namespace Cursor

/-- A place behind the header of a payload. -/
structure Inside (payload : List UInt8) (cursor : Cursor) : Prop where
  header : Header.size ≤ cursor.offset
  bound : cursor.offset ≤ payload.length
  rest : cursor.rest = payload.drop cursor.offset

variable {payload : List UInt8} {start cursor : Cursor}

theorem Inside.remaining (inside : Inside payload cursor) :
    cursor.offset + cursor.remaining = payload.length := by
  rw [Cursor.remaining, inside.rest, List.length_drop]
  exact Nat.add_sub_cancel' inside.bound

theorem Inside.advance (inside : Inside payload cursor) (left : length ≤ cursor.remaining) :
    Inside payload (cursor.advance length) where
  header := Nat.le_add_right_of_le inside.header
  bound := by
    rw [← inside.remaining]
    exact Nat.add_le_add_left left _
  rest := by
    rw [Cursor.advance, inside.rest, List.drop_drop]

theorem inside_afterHeader (accepted : Cursor.afterHeader payload kind = .ok start) :
    Inside payload start := by
  obtain ⟨rfl, offset⟩ := Cursor.afterHeader_ok_iff.mp accepted
  refine ⟨offset.ge, ?_, ?_⟩
  · rw [offset, List.length_append, Header.length_toBytes]
    exact Nat.le_add_right _ _
  · rw [offset, ← (Header.ofKind kind).length_toBytes, List.drop_left]

/-- No read leaves the payload, not even one that fails. -/
theorem Inside.after (inside : Inside payload cursor) (call : Call) :
    Inside payload (call.after cursor) := by
  rw [Call.after]
  split
  · rename_i value past succeeded
    obtain ⟨length, left, rfl, -⟩ := Call.takes_of_ok succeeded
    exact inside.advance left
  · rename_i fault past failed
    cases Call.fails_of_error failed with
    | short | unfinished | overflows => exact inside
    | unknown found =>
      refine inside.advance ?_
      rw [Cursor.remaining, found]
      exact Nat.succ_pos _

theorem Inside.afterAll (inside : Inside payload start) (calls : List Call) :
    Inside payload (Call.afterAll start calls) := by
  induction calls generalizing start with
  | nil => exact inside
  | cons call calls ih => exact ih (inside.after call)

end Cursor

/-- However many reads have been made behind a header, and whichever of them failed, the cursor is
inside of the payload, and what is left are the bytes from its place on. The next read goes by
these. One that succeeds takes as many bytes as its value has, and would read them alike anywhere
else. One that fails for want of bytes or for a number that does not fit leaves the cursor where it
is, and one that finds no tag leaves it behind the byte that it found. -/
theorem reads_in_order {payload : List UInt8} {start place : Cursor}
    (accepted : Cursor.afterHeader payload kind = .ok start) {calls : List Call}
    (reached : Call.afterAll start calls = place) (call : Call) :
    (4 ≤ place.offset ∧ place.offset ≤ payload.length ∧
      place.rest = payload.drop place.offset ∧
      place.offset + place.remaining = payload.length ∧
      (place.atEnd ↔ place.remaining = 0)) ∧
    (∀ value past, call.read.run place = .ok value past →
      ∃ length, length ≤ place.remaining ∧ past = place.advance length ∧
        (call.item value).Spelling (place.rest.take length) ∧
        (1 ≤ length ∧ length ≤ 5 ∧ ∀ size, call.size? = some size → length = size) ∧
        ∀ other, other.rest.take length = place.rest.take length →
          call.read.run other = .ok value (other.advance length)) ∧
    (∀ fault past, call.read.run place = .error fault past →
      match fault with
      | .truncated offset needed => past = place ∧
        match call.size? with
        | some size => offset = place.offset ∧ 0 < needed ∧ place.remaining + needed = size
        | none => offset = payload.length ∧ needed = 1
      | .invalidVarint offset => past = place ∧ offset = place.offset ∧ call.size? = none
      | .invalidTag label value offset => past = place.advance 1 ∧ offset = place.offset ∧
        payload[place.offset]? = some value ∧
        ∃ (α : Type) (_ : Tag α), call = .tag α ∧ label = Tag.label α
      | _ => False) := by
  have inside : place.Inside payload :=
    reached ▸ (Cursor.inside_afterHeader accepted).afterAll calls
  have ended : place.atEnd ↔ place.remaining = 0 := by
    rw [Cursor.atEnd, List.isEmpty_iff, Cursor.remaining, List.length_eq_zero_iff]
  refine ⟨⟨inside.header, inside.bound, inside.rest, inside.remaining, ended⟩,
    fun value past => Call.takes_of_ok, ?_⟩
  intro fault past failed
  cases Call.fails_of_error failed with
  | short fixed missing =>
    refine ⟨rfl, ?_⟩
    rw [fixed]
    exact ⟨rfl, Nat.sub_pos_of_lt missing, Nat.add_sub_of_le missing.le⟩
  | unfinished cut => exact ⟨rfl, inside.remaining, rfl⟩
  | overflows large => exact ⟨rfl, rfl, rfl⟩
  | @unknown α tagged value rest found none =>
    refine ⟨rfl, rfl, ?_, α, tagged, rfl, rfl⟩
    rw [← List.head?_drop, ← inside.rest, found]
    rfl

/-- A byte that is no tag is passed over. Then one byte of a reference is left and the other one is
missing, however often the reference is read. -/
theorem reads_in_order_short :
    Cursor.afterHeader [1, 0, 0xed, 0x1c, 7, 1] .decoder = .ok ⟨4, [7, 1]⟩ ∧
      Call.afterAll ⟨4, [7, 1]⟩ [.tag PayloadKind, .reference] = ⟨5, [1]⟩ ∧
      Read.reference.run ⟨5, [1]⟩ = .error (.truncated 5 1) ⟨5, [1]⟩ ∧
      (Cursor.mk 5 [1]).remaining + 1 = 2 := by
  have accepted : Cursor.afterHeader [1, 0, 0xed, 0x1c, 7, 1] .decoder = .ok ⟨4, [7, 1]⟩ := by
    decide +kernel
  have reached : Call.afterAll ⟨4, [7, 1]⟩ [.tag PayloadKind, .reference] = ⟨5, [1]⟩ := by
    decide +kernel
  have failed : Read.reference.run ⟨5, [1]⟩ = .error (.truncated 5 1) ⟨5, [1]⟩ := rfl
  obtain ⟨-, -, errors⟩ := reads_in_order accepted reached .reference
  exact ⟨accepted, reached, failed, (errors _ _ failed).2.2.2⟩

end InstructionTables
