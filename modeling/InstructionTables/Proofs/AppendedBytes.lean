import InstructionTables.Proofs.ParallelRuns
import InstructionTables.Proofs.ReadSpelling

/-! What bytes at the end of a payload change. No read looks further than it has to: with more
bytes behind it, a read that succeeds does the same, a read that runs short runs short by that
much less, or goes on, and a read that fails for another reason fails for the same one. Builds
made of such steps carry this to the results for whole payloads. -/
namespace InstructionTables

/-- The same place when `suffix` is added to the payload. -/
def Cursor.append (cursor : Cursor) (suffix : List UInt8) : Cursor :=
  ⟨cursor.offset, cursor.rest ++ suffix⟩

theorem Cursor.remaining_append (cursor : Cursor) (suffix : List UInt8) :
    (cursor.append suffix).remaining = cursor.remaining + suffix.length :=
  List.length_append

/-- The same fault when `count` bytes are added to the payload. -/
def Fault.lengthened (count : Nat) : Fault → Fault
  | truncated offset needed => truncated offset (needed - count)
  | trailingData offset length => trailingData offset (length + count)
  | fault => fault

/-! ## Short payloads -/

theorem Read.reference_short {cursor : Cursor} (short : cursor.remaining < 2) :
    reference.run cursor =
      .error (.truncated cursor.offset (2 - cursor.remaining)) cursor := by
  obtain ⟨offset, _ | ⟨low, _ | ⟨high, rest⟩⟩⟩ := cursor
  · rfl
  · rfl
  · simp only [Cursor.remaining, List.length_cons] at short
    omega

/-! ## Extensions -/

/-- A payload with bytes added to it. -/
structure Extension where
  payload : List UInt8
  /-- The added bytes, at least one. -/
  suffix : List UInt8
  nonempty : suffix ≠ []
  /-- The faults that say nothing of the extended payload, besides a shortage that the added
  bytes make up for. -/
  exempt : Fault → Prop := fun _ => False

namespace Extension

variable {extension : Extension} {σ α : Type}

/-- The payload with the added bytes. -/
def extended (extension : Extension) : List UInt8 :=
  extension.payload ++ extension.suffix

/-- Reads of a payload beside reads of the extended one. -/
def reads (extension : Extension) : Pairing Cursor Cursor where
  states before beside :=
    before.offset + before.remaining = extension.payload.length ∧
      beside = before.append extension.suffix
  faults fault other := other = fault.lengthened extension.suffix.length
  opens fault := extension.exempt fault ∨
    ∃ offset needed, fault = .truncated offset needed ∧ needed ≤ extension.suffix.length

/-- Steps of a build from a payload beside the same ones from the extended payload. -/
def steps (extension : Extension) : Pairing (Build.State σ) (Build.State σ) :=
  extension.reads.build Eq

/-! ## Single reads -/

theorem states_advance {before beside : Cursor} {count : Nat} (enough : count ≤ before.remaining)
    (paired : extension.reads.states before beside) :
    extension.reads.states (before.advance count) (beside.advance count) := by
  obtain ⟨whole, rfl⟩ := paired
  rw [Cursor.remaining] at enough whole
  constructor
  · simp only [Cursor.advance, Cursor.remaining, List.length_drop]
    omega
  · simp only [Cursor.advance, Cursor.append, List.drop_append_of_le_length enough]

/-- A shortage is made up for by the added bytes, or is more than that. -/
theorem opens_or_short (extension : Extension) (offset needed : Nat) :
    extension.reads.opens (.truncated offset needed) ∨ extension.suffix.length < needed := by
  rcases Nat.lt_or_ge extension.suffix.length needed with short | enough
  · exact Or.inr short
  · exact Or.inl (Or.inr ⟨offset, needed, rfl, enough⟩)

/-- Where one byte is missing, the added bytes make up for it. -/
theorem opens_missing (extension : Extension) (offset : Nat) :
    extension.reads.opens (.truncated offset 1) :=
  Or.inr ⟨offset, 1, rfl, List.length_pos_iff.mpr extension.nonempty⟩

theorem keeps_offset : extension.reads.Keeps Eq Read.offset Read.offset := by
  rintro before beside ⟨whole, rfl⟩
  exact .ok rfl ⟨whole, rfl⟩

theorem keeps_byte : extension.reads.Keeps Eq Read.byte Read.byte := by
  rintro ⟨offset, rest⟩ beside paired
  obtain rfl := paired.2
  cases rest with
  | nil => exact .opened (extension.opens_missing offset)
  | cons value rest => exact .ok rfl (states_advance (Nat.le_add_left 1 _) paired)

theorem keeps_tag [Tag α] : extension.reads.Keeps Eq (Read.tag α) (Read.tag α) := by
  apply keeps_offset.bind_eq
  intro start
  apply keeps_byte.bind_eq
  intro value
  cases (Tag.ofByte? value : Option α) with
  | none => exact Pairing.keeps_throw rfl
  | some found => exact Pairing.keeps_pure rfl

theorem keeps_varint : extension.reads.Keeps Eq Read.varint Read.varint := by
  rintro ⟨offset, rest⟩ beside paired
  obtain rfl := paired.2
  simp only [EStateM.run, Read.varint, Cursor.append]
  -- Up to five bytes may be read, but none behind the one that decides how the number reads.
  cases decoded : Varint.decode rest with
  | incomplete => exact .opened (extension.opens_missing _)
  | overflow =>
    rw [Varint.decode_append (by simp [decoded]), decoded]
    exact .error rfl
  | value value length =>
    rw [Varint.decode_append (by simp [decoded]), decoded]
    obtain ⟨first, more, rfl, -, rfl⟩ := Varint.decode_eq_value_iff.mp decoded
    exact .ok rfl (states_advance (by simp [Cursor.remaining]) paired)

theorem keeps_reference : extension.reads.Keeps Eq Read.reference Read.reference := by
  intro before beside paired
  obtain rfl := paired.2
  rcases Nat.lt_or_ge before.remaining 2 with few | enough
  · rw [Read.reference_short few]
    rcases extension.opens_or_short before.offset (2 - before.remaining) with opened | short
    · exact .opened opened
    · have later := before.remaining_append extension.suffix
      rw [Read.reference_short (by omega), later, ← Nat.sub_sub]
      exact .error rfl
  · obtain ⟨offset, _ | ⟨low, _ | ⟨high, rest⟩⟩⟩ := before
    · simp [Cursor.remaining] at enough
    · simp [Cursor.remaining] at enough
    · exact .ok rfl (states_advance enough paired)

/-! ## Whole payloads -/

/-- The result for a payload foretells the result for the extended one. -/
def Foretells (extension : Extension) (result later : Except Fault α) : Prop :=
  match result with
  | .ok _ => later = .error (.trailingData extension.payload.length extension.suffix.length)
  | .error fault => extension.reads.opens fault ∨
      later = .error (fault.lengthened extension.suffix.length)

theorem header_foretells (extension : Extension) (kind : PayloadKind) :
    match Cursor.afterHeader extension.payload kind with
    | .ok cursor => ∃ beside, Cursor.afterHeader extension.extended kind = .ok beside ∧
        extension.reads.states cursor beside
    | .error fault => extension.reads.opens fault ∨
        Cursor.afterHeader extension.extended kind =
          .error (fault.lengthened extension.suffix.length) := by
  rcases Nat.lt_or_ge extension.payload.length Header.size with few | enough
  · rw [Cursor.afterHeader_short few]
    rcases extension.opens_or_short 0 (Header.size - extension.payload.length) with opened | short
    · exact Or.inl opened
    · have longer : extension.extended.length =
          extension.payload.length + extension.suffix.length := List.length_append
      rw [Cursor.afterHeader_short (by omega), longer, ← Nat.sub_sub]
      exact Or.inr rfl
  · obtain ⟨version, rawKind, magic, rest, payloadEq⟩ := Cursor.exists_fields enough
    -- The added bytes come after the fields, so both headers are refused or accepted alike.
    have extendedEq : extension.extended = version :: rawKind ::
        (Item.encode (.reference magic) ++ (rest ++ extension.suffix)) := by
      rw [extended, payloadEq]
      simp only [List.cons_append, List.append_assoc]
    rw [extendedEq, payloadEq, Cursor.afterHeader_fields, Cursor.afterHeader_fields]
    split_ifs
    · exact Or.inr rfl
    · exact Or.inr rfl
    · exact Or.inr rfl
    · refine ⟨_, rfl, ?_, rfl⟩
      rw [payloadEq]
      exact Nat.add_comm _ _

variable {kind : PayloadKind} {nothing : σ} {events : σ → List Event}
variable {completion : α → Nat → Event}

/-- Where a build ends, the added bytes are left over. -/
theorem toEnd_foretells {build : Build σ α} (keeps : extension.steps.Keeps Eq build build)
    {state beside : Build.State σ} (paired : extension.steps.states state beside) :
    extension.Foretells (Build.outcome (build.toEnd.run state))
      (Build.outcome (build.toEnd.run beside)) := by
  have ended := keeps state beside paired
  rw [Build.toEnd_run, Build.toEnd_run]
  generalize build.run state = first, build.run beside = second at ended
  cases ended with
  | opened opened => exact Or.inl opened
  | error related => exact Or.inr (congrArg Except.error related)
  | @ok _ _ state beside _ after =>
    obtain ⟨⟨cursor, made⟩, ⟨_, _⟩⟩ := state, beside
    obtain ⟨⟨whole, rfl⟩, -⟩ := after
    have beyond : (cursor.append extension.suffix).atEnd = false := by
      simp [Cursor.atEnd, Cursor.append, extension.nonempty]
    simp only [beyond, Cursor.remaining_append]
    cases left : cursor.atEnd with
    | false => exact Or.inr rfl
    | true =>
      -- Nothing is left, so the place that the build has come to is the length of the payload.
      have none : cursor.remaining = 0 := List.length_eq_zero_iff.mpr (List.isEmpty_iff.mp left)
      rw [none, Nat.add_zero] at whole
      rw [none, Nat.zero_add, Cursor.append, whole]
      rfl

/-- No step of a build looks past what it reads, and so neither does the build. -/
theorem report_foretells {build : Build σ α} (keeps : extension.steps.Keeps Eq build build) :
    extension.Foretells (build.report kind extension.payload nothing events completion).result
      (build.report kind extension.extended nothing events completion).result := by
  have headers := extension.header_foretells kind
  rw [Build.report_result, Build.report_result]
  cases start : Cursor.afterHeader extension.payload kind with
  | error fault =>
    rw [start] at headers
    rcases headers with opened | later
    · exact Or.inl opened
    · rw [later]
      exact Or.inr rfl
  | ok cursor =>
    rw [start] at headers
    obtain ⟨beside, later, paired⟩ := headers
    rw [later]
    exact toEnd_foretells keeps ⟨paired, rfl⟩

/-- A payload that can be extended to an accepted one only lacks bytes, unless its fault is
exempt. -/
theorem Foretells.opens_of_ok {result : Except Fault α} {value : α}
    (foretold : extension.Foretells result (.ok value)) :
    ∃ fault, result = .error fault ∧ extension.reads.opens fault := by
  cases result with
  | ok _ => cases foretold
  | error fault =>
    rcases foretold with opened | later
    · exact ⟨fault, rfl, opened⟩
    · cases later

end Extension

end InstructionTables
