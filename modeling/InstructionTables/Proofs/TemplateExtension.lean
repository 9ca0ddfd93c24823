import InstructionTables.Proofs.AppendedBytes
import InstructionTables.Proofs.TemplateRecords
import InstructionTables.Template.Build

/-! Building a table of templates from a payload with bytes added to it. A record that the
payload cuts short is refused as a whole, so that the fault no longer tells how many bytes are
missing and nothing follows for a longer payload. Every other result foretells the result for
the longer payload, since no step looks past the record that it reads. -/
namespace InstructionTables.Template

variable {extension : Extension}

/-! ## Reads -/

section Reads

theorem keeps_readOperands (count : Nat) :
    extension.reads.Keeps Eq (Family.readOperands count) (Family.readOperands count) := by
  induction count with
  | zero => exact Pairing.keeps_pure rfl
  | succ count ih =>
    apply Extension.keeps_reference.bind_eq
    intro operand
    apply ih.bind_eq
    intro operands
    exact Pairing.keeps_pure rfl

theorem keeps_readSize (kind : Kind) (start : Nat) :
    extension.reads.Keeps Eq (Family.readSize kind start) (Family.readSize kind start) := by
  apply Extension.keeps_varint.bind_eq
  intro bits
  cases OperandSize.ofWidth? bits with
  | none => exact Pairing.keeps_throw rfl
  | some size => exact Pairing.keeps_pure rfl

theorem keeps_readCount (kind : Kind) (start : Nat) :
    extension.reads.Keeps Eq (Family.readCount kind start) (Family.readCount kind start) := by
  apply Extension.keeps_varint.bind_eq
  intro count
  by_cases refused : count = 0 ∨ Emission.maxStoredCount < count
  · rw [if_pos refused]
    exact Pairing.keeps_throw rfl
  · rw [if_neg refused]
    exact Pairing.keeps_pure rfl

theorem keeps_readBody (kind : Kind) (start : Nat) :
    extension.reads.Keeps Eq (Family.readBody kind start) (Family.readBody kind start) := by
  rw [Family.readBody_eq]
  apply Extension.keeps_reference.bind_eq
  intro mnemonic
  apply (keeps_readOperands kind.shape.operands).bind_eq
  intro operands
  have sized : extension.reads.Keeps Eq (Family.readStoredSize kind start)
      (Family.readStoredSize kind start) := by
    rw [Family.readStoredSize]
    cases kind.shape.hasWidth with
    | true => exact keeps_readSize kind start
    | false => exact Pairing.keeps_pure rfl
  apply sized.bind_eq
  intro size
  have counted : extension.reads.Keeps Eq (Family.readStoredCount kind start)
      (Family.readStoredCount kind start) := by
    rw [Family.readStoredCount]
    cases kind.emissionCount? with
    | some count => exact Pairing.keeps_pure rfl
    | none => exact keeps_readCount kind start
  apply counted.bind_eq
  intro count
  exact Pairing.keeps_pure rfl

/-- Blaming the record for a shortage leaves nothing that the added bytes could change. -/
theorem keeps_record (cut : ∀ start tag, extension.exempt (.malformedRecord start tag .truncated)) :
    extension.reads.Keeps Eq Record.read Record.read := by
  apply Extension.keeps_offset.bind_eq
  intro start
  apply Extension.keeps_tag.bind_eq
  intro kind
  have body : extension.reads.Keeps Eq
      ((Family.readBody kind start).mapFault (Family.blameRecord kind start))
      ((Family.readBody kind start).mapFault (Family.blameRecord kind start)) := by
    apply (keeps_readBody kind start).mapFault
    · rintro fault (exempt | ⟨offset, needed, rfl, -⟩)
      · cases fault with
        | truncated offset needed => exact Or.inl (cut start _)
        | _ => exact Or.inl exempt
      · exact Or.inl (cut start _)
    · rintro fault _ rfl
      cases fault with
      | truncated offset needed => exact Or.inl (Or.inl (cut start _))
      | _ => exact Or.inr rfl
  cases kind.shape.emission with
  | previous | reverse => exact Pairing.keeps_pure rfl
  | _ =>
    apply body.bind_eq
    intro family
    exact Pairing.keeps_pure rfl

end Reads

/-! ## Steps -/

section Steps

theorem keeps_emitFold (kind : Kind) (change : Template → Template) (start : Nat) :
    extension.steps.Keeps Eq (emitFold kind change start) (emitFold kind change start) := by
  rintro ⟨cursor, emitted⟩ ⟨beside, _⟩ ⟨paired, rfl⟩
  simp only [EStateM.run, emitFold]
  cases emitted.templates.back? with
  | none => exact .error rfl
  | some current => exact .ok rfl ⟨paired, rfl⟩

theorem keeps_emitFamily (limit : Nat) (family : Family) (start : Nat) :
    extension.steps.Keeps Eq (emitFamily limit family start) (emitFamily limit family start) := by
  rintro ⟨cursor, emitted⟩ ⟨beside, _⟩ ⟨paired, rfl⟩
  simp only [EStateM.run, emitFamily]
  by_cases crowded : limit - emitted.templates.size < family.count
  · rw [if_pos crowded, if_pos crowded]
    exact .error rfl
  · rw [if_neg crowded, if_neg crowded]
    exact .ok rfl ⟨paired, rfl⟩

theorem keeps_emit (limit start : Nat) (record : Record) :
    extension.steps.Keeps Eq (emit limit start record) (emit limit start record) := by
  cases record with
  | previous => exact keeps_emitFold .previous (fun current => current) start
  | reverse => exact keeps_emitFold .reverse reversed start
  | family family => exact keeps_emitFamily limit family start

variable (cut : ∀ start tag, extension.exempt (.malformedRecord start tag .truncated))
include cut

theorem keeps_readRecord (limit : Nat) :
    extension.steps.Keeps Eq (readRecord limit) (readRecord limit) := by
  apply Extension.keeps_offset.ofRead.bind_eq
  intro start
  apply (keeps_record cut).ofRead.bind_eq
  intro record
  exact keeps_emit limit start record

theorem keeps_readRecords (limit fuel : Nat) :
    extension.steps.Keeps Eq (readRecords limit fuel) (readRecords limit fuel) := by
  induction fuel with
  | zero => exact Pairing.keeps_pure rfl
  | succ fuel ih =>
    apply Pairing.keeps_made.bind_eq
    intro emitted
    by_cases missing : emitted.templates.size < limit
    · simp only [if_pos missing]
      apply (keeps_readRecord cut limit).bind_eq
      intro _
      exact ih
    · simp only [if_neg missing]
      exact Pairing.keeps_pure rfl

theorem keeps_readTable (instructionCount : Nat) :
    extension.steps.Keeps Eq (readTable instructionCount) (readTable instructionCount) := by
  apply (keeps_readRecords cut instructionCount instructionCount).bind_eq
  intro _
  apply Pairing.keeps_made.bind_eq
  intro emitted
  exact Pairing.keeps_pure rfl

end Steps

/-! ## Tables -/

/-- Bytes after an accepted payload are trailing data, and bytes after a refused one change
nothing but the number of bytes that are left over or missing, as long as the payload does not
end inside a record. So what starts an accepted payload is truncated, between records or inside
one of them. -/
theorem ofBytes_append_bytes (payload : List UInt8) (instructionCount : Nat) {suffix : List UInt8}
    (nonempty : suffix ≠ []) :
    (match Table.ofBytes payload instructionCount with
      | .ok _ => Table.ofBytes (payload ++ suffix) instructionCount =
          .error (.trailingData payload.length suffix.length)
      | .error (.trailingData offset length) => Table.ofBytes (payload ++ suffix) instructionCount =
          .error (.trailingData offset (length + suffix.length))
      | .error (.truncated offset needed) => suffix.length < needed →
          Table.ofBytes (payload ++ suffix) instructionCount =
            .error (.truncated offset (needed - suffix.length))
      | .error (.malformedRecord _ _ .truncated) => True
      | .error fault => Table.ofBytes (payload ++ suffix) instructionCount = .error fault) ∧
    ∀ table, Table.ofBytes (payload ++ suffix) instructionCount = .ok table →
      (∃ offset needed,
        Table.ofBytes payload instructionCount = .error (.truncated offset needed)) ∨
      ∃ start tag,
        Table.ofBytes payload instructionCount = .error (.malformedRecord start tag .truncated) := by
  let extension : Extension :=
    ⟨payload, suffix, nonempty,
      fun fault => ∃ start tag, fault = .malformedRecord start tag .truncated⟩
  have cut (start : Nat) (tag : String) :
      extension.exempt (.malformedRecord start tag .truncated) := ⟨start, tag, rfl⟩
  have foretold : extension.Foretells (Table.ofBytes payload instructionCount)
      (Table.ofBytes (payload ++ suffix) instructionCount) :=
    Extension.report_foretells (keeps_readTable cut instructionCount)
  constructor
  · cases result : Table.ofBytes payload instructionCount with
    | ok table =>
      rw [result] at foretold
      exact foretold
    | error fault =>
      rw [result] at foretold
      rcases foretold with (⟨start, tag, rfl⟩ | ⟨offset, needed, rfl, enough⟩) | later
      · trivial
      · intro short
        exact absurd short (Nat.not_lt.mpr enough)
      · cases fault with
        | truncated offset needed =>
          intro _
          exact later
        | malformedRecord start tag reason =>
          cases reason with
          | truncated => trivial
          | _ => exact later
        | _ => exact later
  · intro table accepted
    rw [accepted] at foretold
    obtain ⟨fault, refused, ⟨start, tag, rfl⟩ | ⟨offset, needed, rfl, -⟩⟩ := foretold.opens_of_ok
    · exact Or.inr ⟨start, tag, refused⟩
    · exact Or.inl ⟨offset, needed, refused⟩

/-- A byte after a family that fills the table. -/
theorem ofBytes_append_bytes_family :
    (∃ table, Table.ofBytes [1, 1, 0xed, 0x1c, 5, 9, 0] 1 = .ok table) ∧
    Table.ofBytes ([1, 1, 0xed, 0x1c, 5, 9, 0] ++ [5]) 1 = .error (.trailingData 7 1) := by
  have accepted : Table.ofBytes [1, 1, 0xed, 0x1c, 5, 9, 0] 1 =
      .ok ⟨#[⟨⟨0⟩, .string, ⟨9⟩, 0, .unmarked, [], .ofList [.string]⟩]⟩ := by
    decide +kernel
  have some : ([5] : List UInt8) ≠ [] := by decide
  have law := (ofBytes_append_bytes [1, 1, 0xed, 0x1c, 5, 9, 0] 1 some).1
  rw [accepted] at law
  exact ⟨⟨_, accepted⟩, law⟩

end InstructionTables.Template
