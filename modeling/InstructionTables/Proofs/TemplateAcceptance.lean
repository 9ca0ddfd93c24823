import InstructionTables.Proofs.TemplateExpansion

/-! A template payload is accepted exactly when it spells records that fill the table, and the
templates are then those that the records emit. The last template in the table is the current
one, so the table itself remembers all that a record needs from the records before it. -/
namespace InstructionTables.Template

/-! ## Emitted templates -/

/-- These templates have been emitted, each under the id of its position. -/
def Emitted.Holds (emitted : Emitted) (done : List Template) : Prop :=
  emitted.templates.toList = numbered done

namespace Emitted.Holds

variable {emitted : Emitted} {done : List Template}

theorem size_eq (held : emitted.Holds done) : emitted.templates.size = done.length := by
  rw [← Array.length_toList, held, numbered_length]

/-- The current template is the last one, under its id. -/
theorem back?_eq (held : emitted.Holds done) : emitted.templates.back? =
    done.getLast?.map fun current => { current with id := .ofIndex (done.length - 1) } := by
  rw [← Array.getLast?_toList, held, numbered, List.getLast?_mapIdx]

/-- A template takes the next id, whatever its id was before. -/
theorem push {template current : Template} (held : emitted.Holds done)
    (same : { template with id := {} } = { current with id := {} }) :
    (emitted.push template).Holds (done ++ [current]) := by
  have renamed (id : InstructionId) : { template with id } = { current with id } :=
    congrArg (fun unnamed : Template => { unnamed with id }) same
  rw [Holds, Emitted.push, Array.toList_push, held, held.size_eq, renamed, numbered_append]
  simp

/-- A family takes the next ids. -/
theorem expand {family : Family} (held : emitted.Holds done) (wellFormed : family.WellFormed) :
    (emitted.expand family start).Holds (done ++ family.expansion) := by
  rw [Holds, Emitted.expand, Array.appendList_eq_append, Array.toList_appendList, held,
    held.size_eq, Family.templates_eq wellFormed, numbered_append]

end Emitted.Holds

/-! ## Records -/

/-- A record repeats only what there is, and a family has to fit the ids that are left. -/
def Record.Emits (limit : Nat) (done : List Template) : Record → Prop
  | previous | reverse => done ≠ []
  | family described => described.count ≤ limit - done.length

/-- A record that is emitted adds as many templates as it says. -/
theorem Record.expansion_length {record : Record} {done : List Template}
    (wellFormed : record.WellFormed) (emits : record.Emits limit done) :
    (record.expansion done.getLast?).length = record.emissionCount := by
  cases record with
  | previous | reverse =>
    obtain ⟨current, last⟩ := Option.isSome_iff_exists.mp (List.getLast?_isSome.mpr emits)
    rw [last]
    rfl
  | family described => exact Family.expansion_length wellFormed

theorem Record.emissionCount_pos {record : Record} (wellFormed : record.WellFormed) :
    0 < record.emissionCount := by
  cases record with
  | previous | reverse => exact Nat.one_pos
  | family described => exact Family.WellFormed.count_pos wellFormed

section Steps

variable {before after : Build.State Emitted} {done : List Template} {nothing : Unit}

theorem emitFold_ok_iff {kind : Kind} {change : Template → Template} :
    (emitFold kind change start).run before = .ok nothing after ↔
      ∃ current, before.made.templates.back? = some current ∧
        after = ⟨before.cursor, before.made.push (change current)⟩ := by
  rw [EStateM.run, emitFold]
  cases before.made.templates.back? <;> simp [eq_comm]

theorem emitFamily_run {family : Family} :
    (emitFamily limit family start).run before =
      if limit - before.made.templates.size < family.count then
        .error (Family.refuse family.kind start
          (.tooManyTemplates family.count (limit - before.made.templates.size))) before
      else .ok () ⟨before.cursor, before.made.expand family start⟩ :=
  rfl

theorem emitFamily_ok_iff {family : Family} :
    (emitFamily limit family start).run before = .ok nothing after ↔
      family.count ≤ limit - before.made.templates.size ∧
        after = ⟨before.cursor, before.made.expand family start⟩ := by
  rw [emitFamily_run, ← not_lt]
  split <;> rename_i room <;> simp [room, eq_comm]

/-- A fold adds the last template, changed in whatever way does not depend on its id. -/
private theorem fold_ok_iff {kind : Kind} {change repeated : Template → Template}
    (held : before.made.Holds done)
    (same : ∀ (current : Template) (id : InstructionId),
      { change { current with id } with id := {} } = { repeated current with id := {} }) :
    ∃ made : Emitted, made.Holds (done ++ done.getLast?.toList.map repeated) ∧
      ∀ after, (emitFold kind change start).run before = .ok nothing after ↔
        done ≠ [] ∧ after = ⟨before.cursor, made⟩ := by
  have backEq := held.back?_eq
  simp only [emitFold_ok_iff, backEq]
  cases last : done.getLast? with
  | none =>
    obtain rfl := List.getLast?_eq_none_iff.mp last
    exact ⟨before.made, held, by simp⟩
  | some current =>
    have some : done ≠ [] := by
      rintro rfl
      cases last
    refine ⟨_, held.push (same current (.ofIndex (done.length - 1))), ?_⟩
    simp [some]

/-- A record is emitted exactly when it may be, and its expansion is then added. -/
theorem emit_ok_iff {record : Record} (held : before.made.Holds done)
    (wellFormed : record.WellFormed) (start : Nat) :
    ∃ made : Emitted, made.Holds (done ++ record.expansion done.getLast?) ∧
      ∀ after, (emit limit start record).run before = .ok nothing after ↔
        record.Emits limit done ∧ after = ⟨before.cursor, made⟩ := by
  cases record with
  | previous =>
    have unchanged : Record.previous.expansion done.getLast? =
        done.getLast?.toList.map fun current => current :=
      (List.map_id' _).symm
    rw [unchanged]
    exact fold_ok_iff held fun current id => rfl
  | reverse => exact fold_ok_iff held fun current id => rfl
  | family described =>
    refine ⟨before.made.expand described start, held.expand wellFormed, fun after => ?_⟩
    rw [emit, emitFamily_ok_iff, held.size_eq]
    rfl

/-- Behind a record that can be read, what is left to do is to emit it. -/
theorem readRecord_run {record : Record} {middle : Cursor} (wellFormed : record.WellFormed)
    (spans : before.cursor.Spans record.items middle) :
    (readRecord limit).run before =
      (emit limit before.cursor.offset record).run ⟨middle, before.made⟩ := by
  have read : (Build.ofRead Record.read).run before = .ok record ⟨middle, before.made⟩ :=
    Build.ofRead_ok_iff.mpr ⟨Record.read_ok_iff.mpr ⟨wellFormed, spans⟩, rfl⟩
  rw [readRecord, EStateM.run_bind, Build.offset_run]
  simp only [EStateM.run_bind, read]

theorem readRecord_ok_iff :
    (readRecord limit).run before = .ok nothing after ↔
      ∃ (record : Record) (middle : Cursor), record.WellFormed ∧
        before.cursor.Spans record.items middle ∧
        (emit limit before.cursor.offset record).run ⟨middle, before.made⟩ = .ok () after := by
  simp only [readRecord, run_bind_eq_ok, Build.ofRead_ok_iff, Read.offset_ok_iff,
    Record.read_ok_iff]
  constructor
  · rintro ⟨_, ⟨_, _⟩, ⟨⟨rfl, rfl⟩, rfl⟩, record, ⟨cursor, _⟩, ⟨⟨wellFormed, spans⟩, rfl⟩, ran⟩
    exact ⟨record, cursor, wellFormed, spans, ran⟩
  · rintro ⟨record, middle, wellFormed, spans, ran⟩
    exact ⟨_, before, ⟨⟨rfl, rfl⟩, rfl⟩, record, ⟨middle, before.made⟩,
      ⟨⟨wellFormed, spans⟩, rfl⟩, ran⟩

end Steps

/-! ## Runs -/

section Runs

variable {before after : Build.State Emitted} {done : List Template} {nothing : Unit}

theorem fills_nil_iff : Fills limit done [] ↔ done.length = limit := by
  constructor
  · intro fills
    exact fills.total
  · intro full
    exact ⟨nofun, fun _ => ⟨nofun, nofun⟩, full⟩

/-- The first record is emitted, and the others fill what it leaves. -/
theorem fills_cons_iff {record : Record} {records : List Record} :
    Fills limit done (record :: records) ↔ record.WellFormed ∧ record.Emits limit done ∧
      Fills limit (done ++ record.expansion done.getLast?) records := by
  constructor
  · intro fills
    obtain ⟨wellFormed, others⟩ := List.forall_mem_cons.mp fills.wellFormed
    have total := fills.total
    rw [List.map_cons, List.sum_cons] at total
    have emits : record.Emits limit done := by
      cases record with
      | previous => exact fun empty => (fills.opening empty).1 rfl
      | reverse => exact fun empty => (fills.opening empty).2 rfl
      | family described =>
        rw [Record.emissionCount] at total
        rw [Record.Emits]
        omega
    have added := Record.expansion_length wellFormed emits
    have positive := Record.emissionCount_pos wellFormed
    refine ⟨wellFormed, emits, others, ?_, ?_⟩
    · intro empty
      have none := congrArg List.length empty
      rw [List.length_append, List.length_nil] at none
      omega
    · rw [List.length_append, added]
      omega
  · rintro ⟨wellFormed, emits, fills⟩
    have total := fills.total
    rw [List.length_append, Record.expansion_length wellFormed emits] at total
    refine ⟨List.forall_mem_cons.mpr ⟨wellFormed, fills.wellFormed⟩, ?_, ?_⟩
    · rintro rfl
      cases record with
      | previous | reverse => exact absurd rfl emits
      | family described => simp
    · rw [List.map_cons, List.sum_cons]
      omega

/-- Records that fill a table emit as many templates as are left. -/
theorem Fills.expansions_length {records : List Record} (fills : Fills limit done records) :
    done.length + (expansions done.getLast? records).length = limit := by
  induction records generalizing done with
  | nil => exact fills_nil_iff.mp fills
  | cons record records ih =>
    obtain ⟨-, -, rest⟩ := fills_cons_iff.mp fills
    have others := ih rest
    rw [List.getLast?_append, List.length_append] at others
    rw [expansions, List.length_append]
    omega

/-- Records that fill a whole table emit all of its templates. -/
theorem Fills.templates_length {records : List Record} (fills : Fills limit [] records) :
    (expansions none records).length = limit :=
  (Nat.zero_add _).symm.trans fills.expansions_length

/-- The first records fill what they emit. -/
theorem Fills.take {records : List Record} (fills : Fills limit [] records) (count : Nat) :
    Fills ((records.take count).map Record.emissionCount).sum [] (records.take count) := by
  refine ⟨fun record member => fills.wellFormed record (List.mem_of_mem_take member), ?_,
    Nat.zero_add _⟩
  intro _
  cases count with
  | zero => exact ⟨nofun, nofun⟩
  | succ count =>
    rw [List.head?_take, if_neg (Nat.succ_ne_zero count)]
    exact fills.opening rfl

theorem expansions_cons {record : Record} {records : List Record} :
    done ++ expansions done.getLast? (record :: records) =
      done ++ record.expansion done.getLast? ++
        expansions (done ++ record.expansion done.getLast?).getLast? records := by
  rw [expansions, List.getLast?_append, List.append_assoc]

/-- A run reads one record after the other for as long as templates are missing. -/
theorem readRecords_succ_run :
    (readRecords limit (fuel + 1)).run before =
      if before.made.templates.size < limit then
        match (readRecord limit).run before with
        | .ok _ middle => (readRecords limit fuel).run middle
        | .error fault middle => .error fault middle
      else .ok () before := by
  have looked : Build.made.run before = .ok before.made before := rfl
  rw [readRecords, EStateM.run_bind, looked]
  by_cases missing : before.made.templates.size < limit
  · simp only [if_pos missing, EStateM.run_bind]
    cases (readRecord limit).run before <;> rfl
  · simp only [if_neg missing]
    rfl

theorem readRecords_succ_ok_iff :
    (readRecords limit (fuel + 1)).run before = .ok nothing after ↔
      if before.made.templates.size < limit then
        ∃ middle, (readRecord limit).run before = .ok () middle ∧
          (readRecords limit fuel).run middle = .ok nothing after
      else after = before := by
  rw [readRecords_succ_run]
  split
  · cases (readRecord limit).run before <;> simp
  · simp [eq_comm]

/-- A record that is read while templates are missing is emitted behind those that are there. It
emits at least one template, which pays for its fuel, and no more than are missing. -/
theorem readRecord_sound (held : before.made.Holds done) (missing : done.length < limit)
    (ran : (readRecord limit).run before = .ok nothing after) :
    ∃ record : Record, record.WellFormed ∧ record.Emits limit done ∧
      before.cursor.Spans record.items after.cursor ∧
      after.made.Holds (done ++ record.expansion done.getLast?) ∧
      done.length < (done ++ record.expansion done.getLast?).length ∧
      (done ++ record.expansion done.getLast?).length ≤ limit := by
  obtain ⟨record, middle, wellFormed, spans, emitted⟩ := readRecord_ok_iff.mp ran
  have sameHeld : (Build.State.mk middle before.made).made.Holds done := held
  obtain ⟨made, madeHeld, emit_iff⟩ := emit_ok_iff sameHeld wellFormed _
  obtain ⟨emits, rfl⟩ := (emit_iff after).mp emitted
  have positive := Record.emissionCount_pos wellFormed
  have most : record.emissionCount ≤ limit - done.length := by
    cases record with
    | previous | reverse => exact Nat.sub_pos_of_lt missing
    | family described => exact emits
  refine ⟨record, wellFormed, emits, spans, madeHeld, ?_⟩
  rw [List.length_append, Record.expansion_length wellFormed emits]
  omega

/-- A run that stops has read records that fill the table. -/
theorem readRecords_sound (held : before.made.Holds done) (bounded : done.length ≤ limit)
    (enough : limit ≤ done.length + fuel)
    (ran : (readRecords limit fuel).run before = .ok nothing after) :
    ∃ records, Fills limit done records ∧
      before.cursor.Spans (records.flatMap Record.items) after.cursor ∧
      after.made.Holds (done ++ expansions done.getLast? records) := by
  induction fuel generalizing before done with
  | zero =>
    obtain ⟨-, rfl⟩ := run_pure_eq_ok.mp ran
    refine ⟨[], fills_nil_iff.mpr (Nat.le_antisymm bounded enough),
      Cursor.spans_nil_iff.mpr rfl, ?_⟩
    rwa [expansions, List.append_nil]
  | succ fuel ih =>
    rw [readRecords_succ_ok_iff, held.size_eq] at ran
    split at ran
    · rename_i missing
      obtain ⟨next, readOne, ran⟩ := ran
      obtain ⟨record, wellFormed, emits, spans, madeHeld, longer, within⟩ :=
        readRecord_sound held missing readOne
      obtain ⟨records, fills, others, result⟩ := ih madeHeld within (by omega) ran
      refine ⟨record :: records, fills_cons_iff.mpr ⟨wellFormed, emits, fills⟩, ?_, ?_⟩
      · exact spans.trans others
      · rwa [expansions_cons]
    · rename_i full
      cases ran
      refine ⟨[], fills_nil_iff.mpr (Nat.le_antisymm bounded (Nat.le_of_not_lt full)),
        Cursor.spans_nil_iff.mpr rfl, ?_⟩
      rwa [expansions, List.append_nil]

/-- Records that are spelled and do not fill more than the table are read, and the run goes on
behind them. -/
theorem readRecords_through {records : List Record} (held : before.made.Holds done)
    (fills : Fills reached done records) (within : reached ≤ limit)
    (enough : limit ≤ done.length + fuel)
    (spans : before.cursor.Spans (records.flatMap Record.items) last) :
    ∃ (made : Emitted) (left : Nat), made.Holds (done ++ expansions done.getLast? records) ∧
      limit ≤ reached + left ∧
      (readRecords limit fuel).run before = (readRecords limit left).run ⟨last, made⟩ := by
  induction records generalizing before done fuel with
  | nil =>
    obtain rfl := Cursor.spans_nil_iff.mp spans
    have full := fills_nil_iff.mp fills
    refine ⟨before.made, fuel, ?_, full ▸ enough, rfl⟩
    rwa [expansions, List.append_nil]
  | cons record records ih =>
    obtain ⟨wellFormed, emits, rest⟩ := fills_cons_iff.mp fills
    have total := rest.total
    have positive := Record.emissionCount_pos wellFormed
    have added := Record.expansion_length wellFormed emits
    rw [List.length_append, added] at total
    have emitsHere : record.Emits limit done := by
      cases record with
      | previous | reverse => exact emits
      | family described => exact Nat.le_trans emits (Nat.sub_le_sub_right within _)
    obtain ⟨middle, opening, others⟩ := Cursor.spans_append_iff.mp spans
    have sameHeld : (Build.State.mk middle before.made).made.Holds done := held
    obtain ⟨next, nextHeld, emit_iff⟩ := emit_ok_iff sameHeld wellFormed before.cursor.offset
    obtain _ | fuel := fuel
    · omega
    · have here : (Build.State.mk middle next).made.Holds
        (done ++ record.expansion done.getLast?) := nextHeld
      have nextEnough : limit ≤ (done ++ record.expansion done.getLast?).length + fuel := by
        rw [List.length_append, added]
        omega
      obtain ⟨made, left, result, fuelLeft, ran⟩ := ih here rest nextEnough others
      refine ⟨made, left, by rwa [expansions_cons], fuelLeft, ?_⟩
      have readOne : (readRecord limit).run before = .ok () ⟨middle, next⟩ :=
        readRecord_ok_iff.mpr
          ⟨record, middle, wellFormed, opening, (emit_iff _).mpr ⟨emitsHere, rfl⟩⟩
      rw [readRecords_succ_run, held.size_eq, if_pos (by omega), readOne]
      exact ran

/-- Records that fill the table are read wherever they are spelled. -/
theorem readRecords_complete {records : List Record} (held : before.made.Holds done)
    (enough : limit ≤ done.length + fuel) (fills : Fills limit done records)
    (spans : before.cursor.Spans (records.flatMap Record.items) last) :
    ∃ made : Emitted, (readRecords limit fuel).run before = .ok () ⟨last, made⟩ ∧
      made.Holds (done ++ expansions done.getLast? records) := by
  obtain ⟨made, left, result, -, ran⟩ :=
    readRecords_through held fills (Nat.le_refl limit) enough spans
  have full : made.templates.size = limit := by
    rw [result.size_eq, List.length_append, fills.expansions_length]
  refine ⟨made, ?_, result⟩
  rw [ran]
  cases left with
  | zero => rfl
  | succ left => rw [readRecords_succ_run, if_neg (Nat.not_lt.mpr full.ge)]

end Runs

/-! ## Tables -/

/-- A table is read exactly from records that fill it, and it holds what they emit. -/
theorem readTable_ok_iff {start last : Cursor} :
    (∃ made, (readTable instructionCount).run ⟨start, {}⟩ = .ok table ⟨last, made⟩) ↔
      ∃ records, Fills instructionCount [] records ∧
        start.Spans (records.flatMap Record.items) last ∧
        table.templates.toList = numbered (expansions none records) := by
  have nothing : (Build.State.mk start ({} : Emitted)).made.Holds [] := rfl
  simp only [readTable, run_bind_eq_ok, Build.made_ok_iff, run_pure_eq_ok]
  constructor
  · rintro ⟨made, _, _, ran, _, _, ⟨rfl, rfl⟩, rfl, rfl⟩
    obtain ⟨records, fills, spans, held⟩ :=
      readRecords_sound nothing (Nat.zero_le _) (Nat.le_add_left _ _) ran
    exact ⟨records, fills, spans, held⟩
  · rintro ⟨records, fills, spans, templates⟩
    obtain ⟨made, ran, held⟩ :=
      readRecords_complete nothing (Nat.le_add_left _ _) fills spans
    refine ⟨made, (), _, ran, made, _, ⟨rfl, rfl⟩, ?_, rfl⟩
    obtain ⟨stored⟩ := table
    rw [Table.mk.injEq, ← Array.toList_inj]
    exact templates.trans held.symm

/-- A payload is accepted exactly when its bytes after the header spell records that fill the
table. -/
theorem ofBytes_ok_iff :
    Table.ofBytes payload instructionCount = .ok table ↔
      ∃ (records : List Record) (body : List UInt8),
        payload = (Header.ofKind .formatter).toBytes ++ body ∧
        Item.Spells (records.flatMap Record.items) body ∧ Fills instructionCount [] records ∧
        table.templates.toList = numbered (expansions none records) := by
  rw [Table.ofBytes, Table.build, Build.report_result_ok_iff]
  constructor
  · rintro ⟨body, ⟨last, made⟩, payloadEq, ran, ended⟩
    obtain ⟨records, fills, spans, templates⟩ := readTable_ok_iff.mp ⟨made, ran⟩
    obtain ⟨spells, -⟩ := Cursor.spans_end_iff.mp ⟨spans, ended⟩
    exact ⟨records, body, payloadEq, spells, fills, templates⟩
  · rintro ⟨records, body, payloadEq, spells, fills, templates⟩
    obtain ⟨spans, ended⟩ := Cursor.spans_end_iff.mpr ⟨spells, rfl⟩
    obtain ⟨made, ran⟩ := readTable_ok_iff.mpr ⟨records, fills, spans, templates⟩
    exact ⟨body, _, payloadEq, ran, ended⟩

/-- Records that agree with their kinds and start with a family can be written, and the table
that is read back holds what they emit, in order. -/
theorem ofBytes_payloadOf {records : List Record}
    (wellFormed : ∀ record ∈ records, record.WellFormed)
    (opening : records.head? ≠ some .previous ∧ records.head? ≠ some .reverse) :
    Table.ofBytes (payloadOf records) (expansions none records).length =
      .ok ⟨(numbered (expansions none records)).toArray⟩ := by
  have fills : Fills (records.map Record.emissionCount).sum [] records :=
    ⟨wellFormed, fun _ => opening, Nat.zero_add _⟩
  rw [fills.templates_length]
  exact ofBytes_ok_iff.mpr ⟨records, _, rfl, Item.spells_encodeAll _, fills, rfl⟩

/-- A family of two, its last template in reverse order, and that one once more. -/
theorem ofBytes_payloadOf_folds :
    Table.ofBytes [0x01, 0x01, 0xed, 0x1c, 48, 9, 0, 3, 0, 4, 0, 2, 52, 0] 4 =
      .ok ⟨#[⟨⟨0⟩, .pops, ⟨9⟩, 0, .unmarked, [⟨3⟩, ⟨4⟩], .ofList [.pseudoOps]⟩,
        ⟨⟨1⟩, .pops, ⟨9⟩, 1, .unmarked, [⟨3⟩, ⟨4⟩], .ofList [.pseudoOps]⟩,
        ⟨⟨2⟩, .reverse, ⟨9⟩, 1, .unmarked, [⟨4⟩, ⟨3⟩], .ofList [.pseudoOps, .reverseOperands]⟩,
        ⟨⟨3⟩, .reverse, ⟨9⟩, 1, .unmarked, [⟨4⟩, ⟨3⟩],
          .ofList [.pseudoOps, .reverseOperands]⟩]⟩ :=
  have wellFormed : ∀ record ∈ [Record.family ⟨.pops, ⟨9⟩, [⟨3⟩, ⟨4⟩], .unmarked, 2⟩, .reverse,
      .previous], record.WellFormed := by
    decide
  ofBytes_payloadOf wellFormed (by decide)

/-- Only listings of records that agree with their kinds, start with a family and fill the table
are accepted, and to write the records of an accepted payload again, with every number in its
shortest form, changes nothing in the table. -/
theorem ofBytes_ok_records (accepted : Table.ofBytes payload instructionCount = .ok table) :
    ∃ (records : List Record) (pieces : List (List UInt8)),
      payload = (Header.ofKind .formatter).toBytes ++ pieces.flatten ∧
      List.Forall₂ Record.Listing records pieces ∧
      (∀ record ∈ records, record.WellFormed) ∧
      (records.head? ≠ some .previous ∧ records.head? ≠ some .reverse) ∧
      (records.map Record.emissionCount).sum = instructionCount ∧
      table.templates.size = instructionCount ∧
      Table.ofBytes (payloadOf records) instructionCount = .ok table := by
  obtain ⟨records, body, payloadEq, spells, fills, templates⟩ := ofBytes_ok_iff.mp accepted
  obtain ⟨pieces, listings, rfl⟩ := (listings_iff fills.wellFormed).mpr spells
  have total := fills.total
  have size : table.templates.size = instructionCount := by
    rw [← Array.length_toList, templates, numbered_length, fills.templates_length]
  refine ⟨records, pieces, payloadEq, listings, fills.wellFormed, fills.opening rfl, ?_, size, ?_⟩
  · simpa using total
  · exact ofBytes_ok_iff.mpr ⟨records, _, rfl, Item.spells_encodeAll _, fills, templates⟩

/-- A width of two bytes is read as well. -/
theorem ofBytes_ok_records_padded : ∃ (records : List Record) (pieces : List (List UInt8)),
    [0x01, 0x01, 0xed, 0x1c, 4, 9, 0, 3, 0, 0x90, 0, 0] =
      (Header.ofKind .formatter).toBytes ++ pieces.flatten ∧
      List.Forall₂ Record.Listing records pieces ∧
      (records.map Record.emissionCount).sum = 2 :=
  have accepted : Table.ofBytes [0x01, 0x01, 0xed, 0x1c, 4, 9, 0, 3, 0, 0x90, 0, 0] 2 =
      .ok ⟨#[⟨⟨0⟩, .asz, ⟨9⟩, 0, .bits16, [⟨3⟩], .ofList [.addressSize]⟩,
        ⟨⟨1⟩, .asz, ⟨9⟩, 0, .bits16, [⟨3⟩], .ofList [.addressSize]⟩]⟩ := by
    decide +kernel
  have ⟨records, pieces, payloadEq, listings, _, _, total, _⟩ := ofBytes_ok_records accepted
  ⟨records, pieces, payloadEq, listings, total⟩

end InstructionTables.Template
