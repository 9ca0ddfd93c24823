import InstructionTables.Proofs.AppendedBytes
import InstructionTables.Proofs.ParallelDispatch

/-! Building a table from a payload with bytes added to it. Every step of a dispatch build looks
at what it reads and at the arrays that are complete, and at nothing behind it, so that the
result for a payload foretells the result for every longer one. -/
namespace InstructionTables.Dispatch

variable {extension : Extension} {config : Config}

/-! ## Steps -/

theorem keeps_record : extension.reads.Keeps Eq Record.read Record.read := by
  apply Extension.keeps_tag.bind_eq
  rintro (_ | _)
  · apply Extension.keeps_reference.bind_eq
    intro id
    exact Pairing.keeps_pure rfl
  · apply Extension.keeps_varint.bind_eq
    intro size
    apply Extension.keeps_reference.bind_eq
    intro reference
    exact Pairing.keeps_pure rfl

theorem keeps_requireHandler (id : UInt16) (start : Nat) :
    extension.steps.Keeps Eq (config.requireHandler id start) (config.requireHandler id start) := by
  rw [Config.requireHandler]
  by_cases known : id.toNat < config.handlerCount
  · rw [if_pos known]
    exact Pairing.keeps_pure rfl
  · rw [if_neg known]
    exact Pairing.keeps_throw rfl

/-- Room that is there stays there, and what is missing is missing for as long as the added
bytes do not make up for it. -/
theorem keeps_requireRoom (slots : Nat) :
    extension.steps.Keeps Eq (requireRoom slots) (requireRoom slots) := by
  rintro ⟨cursor, arena⟩ ⟨_, _⟩ ⟨⟨whole, rfl⟩, rfl⟩
  have longer := cursor.remaining_append extension.suffix
  simp only [EStateM.run, requireRoom, Cursor.holds_iff, longer]
  by_cases enough : room slots ≤ cursor.remaining
  · rw [if_pos enough, if_pos (by omega)]
    exact .ok rfl ⟨⟨whole, rfl⟩, rfl⟩
  · rw [if_neg enough]
    rcases extension.opens_or_short cursor.offset (room slots - cursor.remaining) with
      opened | short
    · exact .opened opened
    · rw [if_neg (by omega), ← Nat.sub_sub]
      exact .error rfl

theorem keeps_check (check : RoomCheck) (slots : Nat) :
    extension.steps.Keeps Eq (check.run slots) (check.run slots) := by
  cases check with
  | upFront => exact keeps_requireRoom slots
  | whenMissing => exact Pairing.keeps_pure rfl

theorem keeps_share (reference : UInt16) (start : Nat) :
    extension.steps.Keeps Eq (Arena.share reference start) (Arena.share reference start) := by
  rintro ⟨cursor, arena⟩ ⟨beside, _⟩ ⟨paired, rfl⟩
  simp only [EStateM.run, Arena.share]
  cases arena.find? reference with
  | none => exact .error rfl
  | some position => exact .ok rfl ⟨paired, rfl⟩

theorem keeps_requireFresh (reference : UInt16) (start : Nat) :
    extension.steps.Keeps Eq (Arena.requireFresh reference start)
      (Arena.requireFresh reference start) := by
  rintro ⟨cursor, arena⟩ ⟨beside, _⟩ ⟨paired, rfl⟩
  simp only [EStateM.run, Arena.requireFresh]
  cases (arena.find? reference).isSome with
  | false => exact .ok rfl ⟨paired, rfl⟩
  | true => exact .error rfl

theorem keeps_define (reference : UInt16) (size : Nat) (slots : Array Node) :
    extension.steps.Keeps Eq (Arena.define reference size slots)
      (Arena.define reference size slots) := by
  rintro ⟨cursor, arena⟩ ⟨beside, _⟩ ⟨paired, rfl⟩
  exact .ok rfl ⟨paired, rfl⟩

theorem steps_keep (check : RoomCheck) (config : Config) :
    StepsKeep extension.steps id check check config config where
  slotCount := rfl
  invalidHandler := rfl
  offset := Extension.keeps_offset.ofRead
  record := by
    apply keeps_record.ofRead.imp
    rintro record _ rfl
    exact record.rename_id.symm
  handler := keeps_requireHandler
  room := keeps_check check
  share := keeps_share
  fresh := keeps_requireFresh
  define := keeps_define
  tooDeep _ := rfl
  arrays _ _ paired := by rw [paired.2]

/-! ## Tables -/

theorem ofBytes_foretells (extension : Extension) (config : Config) :
    extension.Foretells (Table.ofBytes extension.payload config)
      (Table.ofBytes extension.extended config) :=
  Extension.report_foretells (steps_keep .upFront config).readTable

/-- Bytes after an accepted payload are trailing data, and bytes after a refused one change
nothing but the number of bytes that are left over or missing, until none is missing. So no
accepted payload starts another one, and what starts one is truncated. -/
theorem ofBytes_append (payload : List UInt8) (config : Config) {suffix : List UInt8}
    (nonempty : suffix ≠ []) :
    (match Table.ofBytes payload config with
      | .ok _ => Table.ofBytes (payload ++ suffix) config =
          .error (.trailingData payload.length suffix.length)
      | .error (.trailingData offset length) => Table.ofBytes (payload ++ suffix) config =
          .error (.trailingData offset (length + suffix.length))
      | .error (.truncated offset needed) => suffix.length < needed →
          Table.ofBytes (payload ++ suffix) config =
            .error (.truncated offset (needed - suffix.length))
      | .error fault => Table.ofBytes (payload ++ suffix) config = .error fault) ∧
    (∀ table, Table.ofBytes payload config = .ok table →
      ∀ other, Table.ofBytes (payload ++ suffix) config ≠ .ok other) ∧
    (∀ table, Table.ofBytes (payload ++ suffix) config = .ok table →
      ∃ offset needed, Table.ofBytes payload config = .error (.truncated offset needed)) := by
  have foretold := ofBytes_foretells ⟨payload, suffix, nonempty, fun _ => False⟩ config
  have starts (table : Table) (accepted : Table.ofBytes (payload ++ suffix) config = .ok table) :
      ∃ offset needed, Table.ofBytes payload config = .error (.truncated offset needed) := by
    rw [Extension.extended, accepted] at foretold
    obtain ⟨fault, refused, none | ⟨offset, needed, rfl, -⟩⟩ := foretold.opens_of_ok
    · exact none.elim
    · exact ⟨offset, needed, refused⟩
  refine ⟨?_, ?_, starts⟩
  · cases result : Table.ofBytes payload config with
    | ok table =>
      rw [result] at foretold
      exact foretold
    | error fault =>
      rw [result] at foretold
      rcases foretold with (none | ⟨offset, needed, rfl, enough⟩) | later
      · exact none.elim
      · intro short
        exact absurd short (Nat.not_lt.mpr enough)
      · cases fault with
        | truncated offset needed =>
          intro short
          exact later
        | _ => exact later
  · intro table accepted other longer
    obtain ⟨offset, needed, refused⟩ := starts other longer
    rw [accepted] at refused
    cases refused

/-- Two of the three bytes of a missing slot. -/
theorem ofBytes_append_slot :
    Table.ofBytes [1, 0, 0xed, 0x1c] ⟨1, 2, {}⟩ = .error (.truncated 4 3) ∧
    Table.ofBytes ([1, 0, 0xed, 0x1c] ++ [0, 1]) ⟨1, 2, {}⟩ = .error (.truncated 4 1) := by
  have refused : Table.ofBytes [1, 0, 0xed, 0x1c] ⟨1, 2, {}⟩ = .error (.truncated 4 3) := by
    decide
  have some : ([0, 1] : List UInt8) ≠ [] := by decide
  have law := (ofBytes_append [1, 0, 0xed, 0x1c] ⟨1, 2, {}⟩ some).1
  rw [refused] at law
  exact ⟨refused, law (by decide)⟩

end InstructionTables.Dispatch
