import InstructionTables.Build
import InstructionTables.Proofs.HeaderWord
import InstructionTables.Proofs.ItemSpelling

/-! Reads succeed exactly on the spellings of what they return. The single reads come first, and
then the whole payload of a build, which has to start with the header of its kind and to end with
the last item that the build reads. -/
namespace InstructionTables

/-! ## Single reads -/

/-- The lower byte of a reference comes first. -/
theorem reference_bytes_iff (low high : UInt8) (id : UInt16) :
    low.toUInt16 ||| (high.toUInt16 <<< 8) = id ↔ [low, high] = Item.encode (.reference id) := by
  have lowBound := low.toNat_lt
  have highBound := high.toNat_lt
  have idBound := id.toNat_lt
  have joined : (low.toUInt16 ||| (high.toUInt16 <<< 8)).toNat = low.toNat + 256 * high.toNat := by
    rw [UInt16.toNat_or, UInt16.toNat_shiftLeft, UInt8.toNat_toUInt16, UInt8.toNat_toUInt16]
    have shifted : high.toNat <<< ((8 : UInt16).toNat % 16) % 2 ^ 16 = 2 ^ 8 * high.toNat := by
      simp only [UInt16.reduceToNat, Nat.reduceMod, Nat.shiftLeft_eq]
      omega
    rw [shifted, Nat.or_comm, ← Nat.two_pow_add_eq_or_of_lt (by omega), add_comm]
  rw [← UInt16.toNat_inj, joined]
  simp only [Item.encode, List.cons.injEq, and_true, ← UInt8.toNat_inj, UInt16.toNat_toUInt8,
    UInt16.toNat_shiftRight, UInt16.reduceToNat, Nat.reduceMod, Nat.shiftRight_eq_div_pow]
  omega

namespace Read

open Cursor

theorem offset_ok_iff {before after : Cursor} :
    offset.run before = .ok start after ↔ start = before.offset ∧ after = before := by
  rw [offset, run_bind_eq_ok]
  simp only [EStateM.run_get, EStateM.Result.ok.injEq, run_pure_eq_ok]
  constructor
  · rintro ⟨_, _, ⟨rfl, rfl⟩, rfl, rfl⟩
    exact ⟨rfl, rfl⟩
  · rintro ⟨rfl, rfl⟩
    exact ⟨_, _, ⟨rfl, rfl⟩, rfl, rfl⟩

theorem byte_ok_iff {before after : Cursor} :
    byte.run before = .ok value after ↔ before.Spans [.byte value] after := by
  rw [spans_singleton_iff, EStateM.run, byte]
  constructor
  · intro ran
    split at ran
    · cases ran
    · rename_i first rest restEq
      cases ran
      exact ⟨[value], rest, rfl, restEq, rfl⟩
  · rintro ⟨_, rest, rfl, restEq, rfl⟩
    rw [restEq]
    rfl

theorem tag_ok_iff [Tag α] {value : α} {before after : Cursor} :
    (tag α).run before = .ok value after ↔ before.Spans [.tag value] after := by
  simp only [tag, run_bind_eq_ok, offset_ok_iff, byte_ok_iff]
  constructor
  · rintro ⟨_, _, ⟨rfl, rfl⟩, stored, middle, spans, ran⟩
    split at ran
    · rename_i found known
      obtain ⟨rfl, rfl⟩ := run_pure_eq_ok.mp ran
      rwa [Item.tag, Tag.ofByte?_eq_some_iff.mp known]
    · exact absurd ran run_throw_ne_ok
  · intro spans
    refine ⟨_, _, ⟨rfl, rfl⟩, Tag.byte value, after, spans, ?_⟩
    rw [Tag.ofByte?_byte]
    rfl

theorem reference_ok_iff {before after : Cursor} :
    reference.run before = .ok value after ↔ before.Spans [.reference value] after := by
  rw [spans_singleton_iff, EStateM.run, reference]
  constructor
  · intro ran
    split at ran
    · rename_i low high rest restEq
      cases ran
      exact ⟨[low, high], rest, (reference_bytes_iff low high _).mp rfl, restEq, rfl⟩
    · cases ran
  · rintro ⟨bytes, rest, rfl, restEq, rfl⟩
    have joined := (reference_bytes_iff value.toUInt8 (value >>> 8).toUInt8 value).mpr rfl
    rw [restEq]
    simp only [Item.encode, List.cons_append, List.nil_append, joined, List.length_cons,
      List.length_nil]

/-- Reading takes every way to write a value and leaves what follows it. -/
theorem varint_ok_iff {before after : Cursor} :
    varint.run before = .ok value after ↔ before.Spans [.varint value] after := by
  rw [spans_singleton_iff, EStateM.run, varint]
  constructor
  · intro ran
    split at ran
    · rename_i number length decoded
      obtain ⟨first, rest, restEq, spelled, rfl⟩ := Varint.decode_eq_value_iff.mp decoded
      cases ran
      exact ⟨first, rest, spelled, restEq, rfl⟩
    · cases ran
    · cases ran
  · rintro ⟨bytes, rest, spelled, restEq, rfl⟩
    have decoded := Varint.decode_eq_value_iff.mpr ⟨bytes, rest, restEq, spelled, rfl⟩
    rw [decoded]

/-- Another account of the failures changes no success. -/
theorem mapFault_ok_iff {read : Read α} {change : Fault → Fault} {before after : Cursor} :
    (read.mapFault change).run before = .ok value after ↔ read.run before = .ok value after := by
  rw [EStateM.run, mapFault]
  cases read.run before <;> simp

end Read

/-! ## Whole payloads -/

namespace Build

/-- A step that reads takes the bytes and leaves alone what has been made. -/
theorem ofRead_ok_iff {read : Read α} {before after : Build.State σ} :
    (ofRead read).run before = .ok value after ↔
      read.run before.cursor = .ok value after.cursor ∧ after.made = before.made := by
  obtain ⟨cursor, made⟩ := before
  obtain ⟨past, later⟩ := after
  rw [EStateM.run, ofRead]
  cases read.run cursor <;> simp [eq_comm, and_assoc]

/-- Where the next record starts is told without a read. -/
theorem offset_run (before : Build.State σ) :
    (ofRead Read.offset).run before = .ok before.cursor.offset before := rfl

theorem made_ok_iff {before after : Build.State σ} :
    Build.made.run before = .ok value after ↔ value = before.made ∧ after = before := by
  rw [Build.made, run_bind_eq_ok]
  simp only [EStateM.run_get, EStateM.Result.ok.injEq, run_pure_eq_ok]
  constructor
  · rintro ⟨_, _, ⟨rfl, rfl⟩, rfl, rfl⟩
    exact ⟨rfl, rfl⟩
  · rintro ⟨rfl, rfl⟩
    exact ⟨_, _, ⟨rfl, rfl⟩, rfl, rfl⟩

private theorem finish_ok_iff {before after : Cursor} {nothing : Unit} :
    Read.finish.run before = .ok nothing after ↔ before.rest = [] ∧ after = before := by
  rw [EStateM.run, Read.finish, Cursor.atEnd]
  cases ended : before.rest <;> simp [eq_comm]

section Results

variable {kind : PayloadKind} {nothing : σ} {events : σ → List Event}
variable {completion : α → Nat → Event}

/-- A run to the end fails where bytes are left over. -/
theorem toEnd_run (build : Build σ α) (state : Build.State σ) :
    build.toEnd.run state = match build.run state with
      | .error fault last => .error fault last
      | .ok value last =>
        if last.cursor.atEnd then .ok value last
        else .error (.trailingData last.cursor.offset last.cursor.remaining) last := by
  rw [Build.toEnd, EStateM.run_bind]
  cases build.run state with
  | error fault last => rfl
  | ok value last =>
    have finished : (Build.ofRead Read.finish).run last =
        if last.cursor.atEnd then .ok () last
        else .error (.trailingData last.cursor.offset last.cursor.remaining) last := by
      rw [EStateM.run, Build.ofRead, EStateM.run, Read.finish]
      cases last.cursor.atEnd <;> rfl
    simp only [EStateM.run_bind, finished]
    cases last.cursor.atEnd <;> rfl

/-- The result of a run without the state it ends in. -/
def outcome {ε : Type} : EStateM.Result ε σ α → Except ε α
  | .ok value _ => .ok value
  | .error fault _ => .error fault

theorem report_result (build : Build σ α) (payload : List UInt8) :
    (build.report kind payload nothing events completion).result =
      (Cursor.afterHeader payload kind).bind fun cursor =>
        outcome (build.toEnd.run ⟨cursor, nothing⟩) := by
  rw [Build.report]
  cases Cursor.afterHeader payload kind with
  | error fault => rfl
  | ok cursor =>
    simp only [Except.bind]
    cases build.toEnd.run ⟨cursor, nothing⟩ <;> rfl

/-- Behind the right header, the result is that of the run over the other bytes. -/
theorem report_result_body (build : Build σ α) (body : List UInt8) :
    (build.report kind ((Header.ofKind kind).toBytes ++ body) nothing events completion).result =
      outcome (build.toEnd.run ⟨⟨Header.size, body⟩, nothing⟩) := by
  have accepted : Cursor.afterHeader ((Header.ofKind kind).toBytes ++ body) kind =
      .ok ⟨Header.size, body⟩ :=
    Cursor.afterHeader_ok_iff.mpr ⟨rfl, rfl⟩
  rw [report_result, accepted]
  rfl

/-- A build that ends before the payload does leaves the other bytes over. -/
theorem report_result_left {build : Build σ α}
    (ran : build.run ⟨⟨Header.size, body⟩, nothing⟩ = .ok value ⟨⟨offset, rest⟩, reached⟩)
    (left : rest ≠ []) :
    (build.report kind ((Header.ofKind kind).toBytes ++ body) nothing events completion).result =
      .error (.trailingData offset rest.length) := by
  have beyond : (Cursor.mk offset rest).atEnd = false := List.isEmpty_eq_false_iff.mpr left
  rw [report_result_body, toEnd_run, ran]
  simp only [beyond]
  rfl

/-- Behind the right header, a build that fails is the fault of the payload. -/
theorem report_result_failed {build : Build σ α}
    (ran : build.run ⟨⟨Header.size, body⟩, nothing⟩ = .error fault last) :
    (build.report kind ((Header.ofKind kind).toBytes ++ body) nothing events completion).result =
      .error fault := by
  rw [report_result_body, toEnd_run, ran]
  rfl

end Results

/-- A whole payload yields a value exactly when its header is the written one and the build
ends where the payload does. -/
theorem report_result_ok_iff {build : Build σ α} {events : σ → List Event}
    {completion : α → Nat → Event} :
    (build.report kind payload nothing events completion).result = .ok value ↔
      ∃ body state, payload = (Header.ofKind kind).toBytes ++ body ∧
        build.run ⟨⟨Header.size, body⟩, nothing⟩ = .ok value state ∧ state.cursor.rest = [] := by
  have ended {start : Cursor} {result : α} {last : Build.State σ} :
      build.toEnd.run ⟨start, nothing⟩ = .ok result last ↔
        build.run ⟨start, nothing⟩ = .ok result last ∧ last.cursor.rest = [] := by
    simp only [toEnd, run_bind_eq_ok, ofRead_ok_iff, finish_ok_iff, run_pure_eq_ok]
    constructor
    · rintro ⟨_, middle, ran, _, _, ⟨⟨done, cursorEq⟩, madeEq⟩, rfl, rfl⟩
      obtain ⟨cursor, made⟩ := middle
      obtain ⟨past, later⟩ := last
      cases cursorEq
      cases madeEq
      exact ⟨ran, done⟩
    · rintro ⟨ran, done⟩
      exact ⟨result, last, ran, (), last, ⟨⟨done, rfl⟩, rfl⟩, rfl, rfl⟩
  rw [report]
  constructor
  · intro built
    split at built
    · cases built
    · rename_i cursor accepted
      obtain ⟨payloadEq, offsetEq⟩ := Cursor.afterHeader_ok_iff.mp accepted
      split at built
      · cases built
      · rename_i result state ran
        cases built
        obtain ⟨offset, rest⟩ := cursor
        cases offsetEq
        obtain ⟨ran, done⟩ := ended.mp ran
        exact ⟨rest, state, payloadEq, ran, done⟩
  · rintro ⟨body, state, payloadEq, ran, done⟩
    have accepted : Cursor.afterHeader payload kind = .ok ⟨Header.size, body⟩ :=
      Cursor.afterHeader_ok_iff.mpr ⟨payloadEq, rfl⟩
    rw [accepted]
    simp only [ended.mpr ⟨ran, done⟩]

end Build

end InstructionTables
