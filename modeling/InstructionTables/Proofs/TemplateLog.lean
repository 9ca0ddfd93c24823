import InstructionTables.Proofs.DispatchLog
import InstructionTables.Proofs.TemplateFaults
import InstructionTables.Proofs.TemplateFolds

/-! What the build of a template table logs. A family is told when it has been read, before its
templates are there, with the id that the first of them is about to take, and repetitions are not
told. So the log says where in the payload each family is and which ids are its own. This is read
off the records that the payload lists, each in its place. A payload that is refused is logged with
the families among the records before the one that is to blame. -/
namespace InstructionTables.Template

open Build (endState)

/-! ## Records in their places -/

/-- A record of a payload in its place. -/
structure Place where
  record : Record
  /-- The bytes that the record is listed as. -/
  bytes : List UInt8
  /-- Where these bytes start. -/
  offset : Nat
  /-- The id of the first template that the record emits. -/
  first : Nat

/-- The number of templates that the record emits. -/
def Place.count (place : Place) : Nat :=
  place.record.emissionCount

/-- The event of a record. Only families have one. -/
def Place.event? (place : Place) : Option Event :=
  match place.record with
  | .previous | .reverse => none
  | .family family => some (.familyExpanded family.kind place.offset family.count place.first)

/-- Records in their places, where the first of them starts at `offset` and emits templates from
the id `first` on. -/
def locate (offset first : Nat) : List Record → List (List UInt8) → List Place
  | record :: records, bytes :: pieces =>
    ⟨record, bytes, offset, first⟩ ::
      locate (offset + bytes.length) (first + record.emissionCount) records pieces
  | _, _ => []

/-- The events of records, in the order in which they are listed. -/
def traces (places : List Place) : List Event :=
  places.filterMap Place.event?

section Places

variable {records : List Record} {pieces : List (List UInt8)} {place other : Place}
  {id : Nat}

theorem traces_level {places : List Place} {event : Event} (member : event ∈ traces places) :
    event.level = .trace := by
  obtain ⟨⟨record, bytes, offset, first⟩, -, told⟩ := List.mem_filterMap.mp member
  cases record with
  | previous | reverse => cases told
  | family family =>
    cases told
    rfl

/-- A record in its place is one of those listed. It starts where the bytes of those before it end,
and emits templates behind theirs. -/
theorem exists_of_mem_locate (listings : List.Forall₂ Record.Listing records pieces)
    (member : place ∈ locate offset first records pieces) :
    place.record.Listing place.bytes ∧ ∃ earlier later front back,
      records = earlier ++ place.record :: later ∧ pieces = front ++ place.bytes :: back ∧
      place.offset = offset + front.flatten.length ∧
      place.first = first + (earlier.map Record.emissionCount).sum := by
  induction listings generalizing offset first with
  | nil => cases member
  | @cons record bytes records pieces listing _ ih =>
    rcases List.mem_cons.mp member with rfl | behind
    · exact ⟨listing, [], records, [], pieces, rfl, rfl, rfl, rfl⟩
    · obtain ⟨listed, earlier, later, front, back, rfl, rfl, offsetEq, firstEq⟩ := ih behind
      refine ⟨listed, record :: earlier, later, bytes :: front, back, rfl, rfl, ?_, ?_⟩
      · rw [offsetEq, List.flatten_cons, List.length_append, Nat.add_assoc]
      · rw [firstEq, List.map_cons, List.sum_cons, Nat.add_assoc]

end Places

/-! ## Emitted templates -/

/-- The templates that a record emits behind those that are there, with the next ids. -/
def Record.emitted (earlier : List Template) (record : Record) : List Template :=
  (record.expansion earlier.getLast?).mapIdx fun position template =>
    { template with id := .ofIndex (position + earlier.length) }

/-- What a record emits does not depend on the id of the template before it. -/
theorem numbered_append_expansion (record : Record) (done : List Template) :
    numbered (done ++ record.expansion done.getLast?) =
      numbered done ++ record.emitted (numbered done) := by
  have last : (numbered done).getLast? = done.getLast?.map fun current =>
      { current with id := .ofIndex (done.length - 1) } :=
    List.getLast?_mapIdx
  rw [numbered_append, Record.emitted, last, numbered_length]
  congr 1
  cases record with
  | previous | reverse => cases done.getLast? <;> rfl
  | family described => rfl

section Steps

variable {before after : Build.State Emitted} {done : List Template} {nothing : Unit}
  {fault : Fault}

/-- How a run ends that has read up to a place and emitted these templates: it has emitted all that
are asked for, or the next record is refused. -/
def EndsAt (limit : Nat) (templates : List Template) (last : Cursor) :
    EStateM.Result Fault (Build.State Emitted) Unit → Prop
  | .ok _ after => after.cursor = last ∧ templates.length = limit ∧ after.made.Holds templates
  | .error fault after => templates.length < limit ∧ after.made.Holds templates ∧
      RecordRefused limit templates.length last.offset last.rest fault

/-- Wherever a run ends, there are no more templates than are asked for. -/
theorem EndsAt.size_eq {run : EStateM.Result Fault (Build.State Emitted) Unit}
    (ends : EndsAt limit done last run) :
    (endState run).made.templates.size = done.length ∧ done.length ≤ limit := by
  cases run with
  | ok _ after => exact ⟨ends.2.2.size_eq, ends.2.1.le⟩
  | error fault after => exact ⟨ends.2.1.size_eq, ends.1.le⟩

/-- What a run has read when it ends, and what it has logged. -/
structure RunLog (limit : Nat) (before : Build.State Emitted) (done : List Template)
    (run : EStateM.Result Fault (Build.State Emitted) Unit) (records : List Record)
    (pieces : List (List UInt8)) (last : Cursor) : Prop where
  listings : List.Forall₂ Record.Listing records pieces
  fills : Fills (done ++ expansions done.getLast? records).length done records
  rest : before.cursor.rest = pieces.flatten ++ last.rest
  offset : last.offset = before.cursor.offset + pieces.flatten.length
  events : (endState run).made.events = before.made.events ++
    traces (locate before.cursor.offset done.length records pieces)
  ended : EndsAt limit (done ++ expansions done.getLast? records) last run

/-- A run that ends before its first record has read and logged nothing. -/
theorem RunLog.here {run : EStateM.Result Fault (Build.State Emitted) Unit}
    (made : (endState run).made = before.made) (ends : EndsAt limit done before.cursor run) :
    RunLog limit before done run [] [] before.cursor := by
  have nothing : done ++ expansions done.getLast? [] = done := List.append_nil done
  refine ⟨.nil, fills_nil_iff.mpr ?_, rfl, rfl, ?_, ?_⟩
  · rw [nothing]
  · exact (congrArg Emitted.events made).trans (List.append_nil _).symm
  · rwa [nothing]

end Steps

/-! ## Whole payloads -/

/-- The records of a payload in their places. The first of them starts behind the header. -/
def places (records : List Record) (pieces : List (List UInt8)) : List Place :=
  locate Header.size 0 records pieces

/-- What the log of a payload tells that is refused. -/
inductive FailureLog (payload : List UInt8) (instructionCount : Nat) (fault : Fault) :
    List Event → Prop where
  /-- No record is read. -/
  | header :
      Cursor.afterHeader payload .formatter = .error fault →
      FailureLog payload instructionCount fault []
  /-- The families among the records that are read, and the fault is that of what comes behind. -/
  | records {records : List Record} {pieces : List (List UInt8)} {rest : List UInt8} :
      payload = (Header.ofKind .formatter).toBytes ++ (pieces.flatten ++ rest) →
      List.Forall₂ Record.Listing records pieces → (∀ record ∈ records, record.WellFormed) →
      (records.head? ≠ some .previous ∧ records.head? ≠ some .reverse) →
      RefusedAt instructionCount (records.map Record.emissionCount).sum
        (Header.size + pieces.flatten.length) rest fault →
      FailureLog payload instructionCount fault (traces (places records pieces))

theorem FailureLog.level {log : List Event}
    (failure : FailureLog payload instructionCount fault log) :
    ∀ event ∈ log, event.level = .trace := by
  cases failure with
  | header => nofun
  | records => exact fun event => traces_level

section Payloads

variable {records : List Record} {pieces : List (List UInt8)} {place : Place}

/-- The bytes of a record in its place are part of the payload. -/
theorem ListedAs.located (listed : ListedAs payload records pieces)
    (member : place ∈ places records pieces) :
    place.record.Listing place.bytes ∧ place.bytes <+: payload.drop place.offset := by
  obtain ⟨listing, _, _, front, back, -, piecesEq, offsetEq, -⟩ :=
    exists_of_mem_locate listed.listings member
  have header := (Header.ofKind .formatter).length_toBytes
  refine ⟨listing, ?_⟩
  rw [listed.payload_eq, piecesEq, offsetEq, ← header, List.flatten_append, ← List.append_assoc,
    ← List.length_append, List.drop_left, List.flatten_cons]
  exact List.prefix_append _ _

/-- Records in their places emit their templates, where the table is filled with those. -/
theorem Fills.emitted (fills : Fills limit [] records)
    (listings : List.Forall₂ Record.Listing records pieces)
    (member : place ∈ places records pieces) : ∃ earlier later,
      numbered (expansions none records) = earlier ++ place.record.emitted earlier ++ later ∧
        earlier.length = place.first ∧ (place.record.emitted earlier).length = place.count := by
  obtain ⟨-, before, behind, _, _, rfl, -, -, firstEq⟩ := exists_of_mem_locate listings member
  have opening := (fills.take before.length).templates_length
  rw [List.append_cons] at fills ⊢
  have through := (fills.take (before ++ [place.record]).length).templates_length
  rw [List.take_left] at opening through
  let done := expansions none before
  have here : expansions none (before ++ [place.record]) =
      done ++ place.record.expansion done.getLast? := by
    rw [expansions_append, expansions, expansions, List.append_nil, Option.or_none]
  have step := numbered_append_expansion place.record done
  rw [expansions_append, here, numbered_append, step]
  refine ⟨numbered done, _, rfl, ?_, ?_⟩
  · rw [numbered_length, firstEq, Nat.zero_add]
    exact opening
  · have lengths := congrArg List.length step
    rw [numbered_length, ← here, List.length_append, numbered_length, opening, through,
      List.map_append, List.sum_append, List.map_singleton, List.sum_singleton] at lengths
    exact (Nat.add_left_cancel lengths).symm

end Payloads

/-- A family of two, a repetition, and a second family, which takes the id behind those. -/
example : (Table.build [1, 1, 0xed, 0x1c, 48, 9, 0, 1, 0, 2, 0, 2, 52, 6, 9, 0, 3, 0, 4, 0] 4).log =
    [.familyExpanded .pops 4 2 0, .familyExpanded .stig2_2b 13 1 3, .templatesBuilt 4 20] := by
  decide +kernel

end InstructionTables.Template

namespace InstructionTables

end InstructionTables
