import InstructionTables.Proofs.ReadSpelling

/-! How reads and builds fail. A step refuses a state when it ends there with a fault, and steps
that follow one another refuse a state when one of them refuses what those before it have come to.
The single reads are refused for want of bytes, for a byte that is no tag, or for a number that
does not fit, and a whole payload for its header, for what a build refuses, or for the bytes that
the build leaves over. -/
namespace InstructionTables

variable {ε σ α β : Type}

/-- The step ends with this fault, in whatever state. -/
def Refuses (step : EStateM ε σ α) (before : σ) (fault : ε) : Prop :=
  ∃ after, step.run before = .error fault after

/-! ## Runs -/

section Runs

variable {before : σ} {fault : ε}

/-- Two steps refuse what the first one refuses, and what the second one refuses behind it. -/
theorem refuses_bind_iff {first : EStateM ε σ α} {next : α → EStateM ε σ β} :
    Refuses (first >>= next) before fault ↔
      Refuses first before fault ∨
        ∃ part middle, first.run before = .ok part middle ∧ Refuses (next part) middle fault := by
  simp only [Refuses, EStateM.run_bind]
  cases first.run before <;> simp

theorem not_refuses_pure {value : α} : ¬ Refuses (pure value : EStateM ε σ α) before fault :=
  nofun

theorem refuses_throw_iff {thrown : ε} :
    Refuses (throw thrown : EStateM ε σ α) before fault ↔ fault = thrown := by
  constructor
  · rintro ⟨after, ran⟩
    cases ran
    rfl
  · rintro rfl
    exact ⟨before, rfl⟩

/-- What a step accepts it does not refuse. -/
theorem not_refuses_of_ok {step : EStateM ε σ α} (ran : step.run before = .ok value after) :
    ¬ Refuses step before fault := by
  rintro ⟨other, failed⟩
  rw [ran] at failed
  cases failed

end Runs

/-! ## Single reads -/

namespace Read

variable {cursor : Cursor} {fault : Fault}

theorem not_refuses_offset : ¬ Refuses offset cursor fault :=
  not_refuses_of_ok (offset_ok_iff.mpr ⟨rfl, rfl⟩)

theorem byte_refuses_iff :
    Refuses byte cursor fault ↔ cursor.rest = [] ∧ fault = .truncated cursor.offset 1 := by
  obtain ⟨offset, rest⟩ := cursor
  simp only [Refuses, EStateM.run, byte]
  cases rest <;> simp [eq_comm]

/-- A tag is refused where the payload ends, or where a byte is the number of no tag. -/
theorem tag_refuses_iff [Tag α] : Refuses (tag α) cursor fault ↔
    cursor.rest = [] ∧ fault = .truncated cursor.offset 1 ∨
      ∃ value rest, cursor.rest = value :: rest ∧ Ordinal.count α ≤ value.toNat ∧
        fault = .invalidTag (Tag.label α) value cursor.offset := by
  have unknown (value : UInt8) :
      (Tag.ofByte? value : Option α) = none ↔ Ordinal.count α ≤ value.toNat :=
    Ordinal.ofOrdinal?_eq_none_iff
  simp only [tag, refuses_bind_iff, not_refuses_offset, false_or, byte_refuses_iff,
    offset_ok_iff, byte_ok_iff, Cursor.spans_singleton_iff]
  constructor
  · rintro ⟨_, _, ⟨rfl, rfl⟩, ended | ⟨value, _, ⟨_, rest, rfl, restEq, rfl⟩, refused⟩⟩
    · exact Or.inl ended
    · split at refused
      · exact absurd refused not_refuses_pure
      · rename_i none
        exact Or.inr ⟨value, rest, restEq, (unknown value).mp none, refuses_throw_iff.mp refused⟩
  · rintro (ended | ⟨value, rest, restEq, none, rfl⟩)
    · exact ⟨_, _, ⟨rfl, rfl⟩, Or.inl ended⟩
    · refine ⟨_, _, ⟨rfl, rfl⟩, Or.inr ⟨value, _, ⟨_, rest, rfl, restEq, rfl⟩, ?_⟩⟩
      rw [(unknown value).mpr none]
      exact refuses_throw_iff.mpr rfl

/-- A reference is read if its two bytes are there. -/
theorem reference_ends_iff {after : Cursor} :
    (∃ value, reference.run cursor = .ok value after) ↔
      2 ≤ cursor.remaining ∧ after = cursor.advance 2 := by
  obtain ⟨offset, _ | ⟨low, _ | ⟨high, rest⟩⟩⟩ := cursor <;>
    simp [EStateM.run, reference, Cursor.remaining, eq_comm]

theorem reference_refuses_iff : Refuses reference cursor fault ↔
    cursor.remaining < 2 ∧ fault = .truncated cursor.offset (2 - cursor.remaining) := by
  obtain ⟨offset, _ | ⟨low, _ | ⟨high, rest⟩⟩⟩ := cursor <;>
    simp [Refuses, EStateM.run, reference, Cursor.remaining, eq_comm]

theorem varint_refuses_iff : Refuses varint cursor fault ↔
    Varint.Unfinished cursor.rest ∧ fault = .truncated (cursor.offset + cursor.remaining) 1 ∨
      Varint.Overflows cursor.rest ∧ fault = .invalidVarint cursor.offset := by
  rw [← Varint.decode_eq_incomplete_iff, ← Varint.decode_eq_overflow_iff]
  simp only [Refuses, EStateM.run, varint]
  cases Varint.decode cursor.rest <;> simp [eq_comm]

/-- A number is refused where it is cut off or does not fit, and for its value. -/
theorem number_refuses_iff {check : UInt32 → Read α} {wrong : UInt32 → Prop}
    (checked : ∀ value after, Refuses (check value) after fault ↔ wrong value) :
    Refuses (varint >>= check) cursor fault ↔
      Varint.Unfinished cursor.rest ∧ fault = .truncated (cursor.offset + cursor.remaining) 1 ∨
      Varint.Overflows cursor.rest ∧ fault = .invalidVarint cursor.offset ∨
      ∃ value number, Varint.Spelling value number ∧ number <+: cursor.rest ∧ wrong value := by
  simp only [refuses_bind_iff, varint_refuses_iff, varint_ok_iff, Cursor.spans_singleton_iff,
    checked, or_assoc]
  have values : (∃ value middle, (∃ number rest, Varint.Spelling value number ∧
        cursor.rest = number ++ rest ∧ middle = cursor.advance number.length) ∧ wrong value) ↔
      ∃ value number, Varint.Spelling value number ∧ number <+: cursor.rest ∧ wrong value := by
    constructor
    · rintro ⟨value, _, ⟨number, rest, spelled, restEq, rfl⟩, refused⟩
      exact ⟨value, number, spelled, ⟨rest, restEq.symm⟩, refused⟩
    · rintro ⟨value, number, spelled, ⟨rest, restEq⟩, refused⟩
      exact ⟨value, _, ⟨number, rest, spelled, restEq.symm, rfl⟩, refused⟩
  exact or_congr_right (or_congr_right values)

/-- A read is refused in other words where it is refused. -/
theorem mapFault_refuses_iff {read : Read α} {change : Fault → Fault} :
    Refuses (read.mapFault change) cursor fault ↔
      ∃ original, Refuses read cursor original ∧ fault = change original := by
  have ran (after : Cursor) : (read.mapFault change).run cursor = .error fault after ↔
      ∃ original, read.run cursor = .error original after ∧ fault = change original := by
    rw [EStateM.run, mapFault]
    cases read.run cursor <;> simp [and_comm, eq_comm]
  simp only [Refuses, ran]
  rw [exists_comm]
  simp only [exists_and_right]

end Read

/-! ## Whole payloads -/

namespace Build

theorem ofRead_refuses_iff {read : Read α} {before : Build.State σ} {fault : Fault} :
    Refuses (ofRead read) before fault ↔ Refuses read before.cursor fault := by
  have ran (after : Build.State σ) : (ofRead read).run before = .error fault after ↔
      read.run before.cursor = .error fault after.cursor ∧ after.made = before.made := by
    obtain ⟨cursor, made⟩ := after
    rw [EStateM.run, ofRead]
    cases read.run before.cursor <;> simp [and_assoc, eq_comm]
  simp only [Refuses, ran]
  constructor
  · rintro ⟨after, failed, -⟩
    exact ⟨after.cursor, failed⟩
  · rintro ⟨cursor, failed⟩
    exact ⟨⟨cursor, before.made⟩, failed, rfl⟩

theorem not_refuses_made {before : Build.State σ} {fault : Fault} :
    ¬ Refuses Build.made before fault :=
  not_refuses_of_ok (made_ok_iff.mpr ⟨rfl, rfl⟩)

/-- A whole payload is refused for its header, by the build, or for the bytes left over. -/
theorem report_result_error_iff {build : Build σ α} {events : σ → List Event}
    {completion : α → Nat → Event} {fault : Fault} :
    (build.report kind payload nothing events completion).result = .error fault ↔
      Cursor.afterHeader payload kind = .error fault ∨
        ∃ start, Cursor.afterHeader payload kind = .ok start ∧
          (Refuses build ⟨start, nothing⟩ fault ∨
            ∃ value last, build.run ⟨start, nothing⟩ = .ok value last ∧ last.cursor.rest ≠ [] ∧
              fault = .trailingData last.cursor.offset last.cursor.remaining) := by
  rw [report_result]
  cases Cursor.afterHeader payload kind with
  | error refused => simp [Except.bind]
  | ok start =>
    simp only [Except.bind, reduceCtorEq, false_or, Except.ok.injEq, exists_eq_left', toEnd_run,
      Refuses]
    cases build.run ⟨start, nothing⟩ with
    | error refused last => simp [outcome]
    | ok value last =>
      cases ended : last.cursor.rest <;> simp [outcome, Cursor.atEnd, ended, eq_comm]

end Build

end InstructionTables
