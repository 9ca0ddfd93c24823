import InstructionTables.Proofs.DispatchAcceptance
import InstructionTables.Proofs.TemplateAcceptance

/-! The counts that are declared beside a payload. A payload says nowhere how many slots or
templates it holds, so the count that a loader declares is checked only by reading: declaring
more than there are runs past the end of the payload, and declaring fewer leaves bytes over or
cuts through a family. An accepted payload therefore fits one count and no other. -/
namespace InstructionTables

/-! ## Slots -/

namespace Dispatch

namespace Forest

/-- The slots, each as a forest of its own. -/
def roots : Forest → List Forest
  | nil => []
  | handler id rest => handler id nil :: rest.roots
  | define reference slots rest => define reference slots nil :: rest.roots
  | share reference rest => share reference nil :: rest.roots

/-- The first slots, as many as asked for. -/
def take : Nat → Forest → Forest
  | 0, _ => nil
  | _ + 1, nil => nil
  | count + 1, handler id rest => handler id (rest.take count)
  | count + 1, define reference slots rest => define reference slots (rest.take count)
  | count + 1, share reference rest => share reference (rest.take count)

variable {forest : Forest} {config : Config} {levels count : Nat} {known : List UInt16}

theorem roots_length : forest.roots.length = forest.width := by
  induction forest with
  | nil => rfl
  | handler id rest ih => rw [roots, width, List.length_cons, ih]
  | define reference slots rest _ ih => rw [roots, width, List.length_cons, ih]
  | share reference rest ih => rw [roots, width, List.length_cons, ih]

theorem width_of_mem_roots (member : root ∈ forest.roots) : root.width = 1 := by
  induction forest with
  | nil => cases member
  | handler id rest ih =>
    rcases List.mem_cons.mp member with rfl | later
    · rfl
    · exact ih later
  | define reference slots rest _ ih =>
    rcases List.mem_cons.mp member with rfl | later
    · rfl
    · exact ih later
  | share reference rest ih =>
    rcases List.mem_cons.mp member with rfl | later
    · rfl
    · exact ih later

/-- A slot is written with at least one item. -/
theorem items_of_mem_roots (member : root ∈ forest.roots) : root.items ≠ [] := by
  have width := width_of_mem_roots member
  cases root with
  | nil => cases width
  | handler id rest => simp [items_handler, Record.items]
  | define reference slots rest => simp [items_define, Record.items]
  | share reference rest => simp [items_share, Record.items]

theorem roots_take : (forest.take count).roots = forest.roots.take count := by
  induction forest generalizing count with
  | nil => cases count <;> rfl
  | handler id rest ih =>
    cases count with
    | zero => rfl
    | succ count => rw [take, roots, roots, List.take_succ_cons, ih]
  | define reference slots rest _ ih =>
    cases count with
    | zero => rfl
    | succ count => rw [take, roots, roots, List.take_succ_cons, ih]
  | share reference rest ih =>
    cases count with
    | zero => rfl
    | succ count => rw [take, roots, roots, List.take_succ_cons, ih]

/-- The items of slots are those of one slot after the other. -/
theorem items_eq_flatMap_roots : forest.items = forest.roots.flatMap items := by
  induction forest with
  | nil => rfl
  | handler id rest ih =>
    rw [items_handler, roots, List.flatMap_cons, ih, items_handler]
    simp [items, records]
  | define reference slots rest _ ih =>
    rw [items_define, roots, List.flatMap_cons, ih, items_define]
    simp [items, records]
  | share reference rest ih =>
    rw [items_share, roots, List.flatMap_cons, ih, items_share]
    simp [items, records]

/-- The first slots keep to the rules that all slots keep to. -/
theorem Fits.take (fits : forest.Fits config levels known) (count : Nat) :
    (forest.take count).Fits config levels known := by
  have distinct : known.Nodup := (List.nodup_append.mp fits.distinct).1
  induction forest generalizing count known with
  | nil => cases count <;> exact fits_nil_iff.mpr distinct
  | handler id rest ih =>
    cases count with
    | zero => exact fits_nil_iff.mpr distinct
    | succ count =>
      obtain ⟨handled, others⟩ := fits_handler_iff.mp fits
      exact fits_handler_iff.mpr ⟨handled, ih others count distinct⟩
  | define reference slots rest _ ih =>
    cases count with
    | zero => exact fits_nil_iff.mpr distinct
    | succ count =>
      obtain ⟨below, levelsEq, width, inner, fresh, others⟩ := fits_define_iff.mp fits
      have later := (List.nodup_append.mp others.distinct).1
      exact fits_define_iff.mpr
        ⟨below, levelsEq, width, inner, fresh, ih others count later⟩
  | share reference rest ih =>
    cases count with
    | zero => exact fits_nil_iff.mpr distinct
    | succ count =>
      obtain ⟨member, others⟩ := fits_share_iff.mp fits
      exact fits_share_iff.mpr ⟨member, ih others count distinct⟩

/-- Only the number of handlers matters for the slots of a forest. -/
theorem Fits.withSlotCount (fits : forest.Fits config levels known) (slotCount : Nat) :
    forest.Fits { config with slotCount } levels known :=
  ⟨fits.handlers, fits.widths, fits.nested, fits.distinct, fits.shares⟩

end Forest

/-- Reading slots can be interrupted after some of them. -/
theorem readSlots_add (readSlot : Build Arena Node) (first more : Nat) (slots : Array Node) :
    readSlots readSlot (first + more) slots =
      readSlots readSlot first slots >>= readSlots readSlot more := by
  induction first generalizing slots with
  | zero => rw [Nat.zero_add, readSlots, pure_bind]
  | succ first ih =>
    rw [Nat.succ_add, readSlots, readSlots, bind_assoc]
    congr 1
    funext slot
    exact ih (slots.push slot)

/-- No slot starts where the payload ends. -/
theorem readNode_ended (check : RoomCheck) (config : Config) (levels offset : Nat) (arena : Arena) :
    (readNode check config levels).run ⟨⟨offset, []⟩, arena⟩ =
      .error (.truncated offset 1) ⟨⟨offset, []⟩, arena⟩ := by
  cases levels <;> rfl

/-- A table fails where its slots do. -/
theorem readTable_run_error {config : Config} {check : RoomCheck} {start : Cursor}
    {last : Build.State Arena}
    (invalidKnown : config.invalidHandler.value.toNat < config.handlerCount)
    (room : check.Holds config.slotCount start)
    (ran : (readSlots (readNode check config (maxDepth - 1)) config.slotCount #[]).run
      ⟨start, {}⟩ = .error fault last) :
    (readTable check config).run ⟨start, {}⟩ = .error fault last := by
  have handled : (config.requireHandler config.invalidHandler.value 0).run ⟨start, {}⟩ =
      .ok ⟨config.invalidHandler.value⟩ ⟨start, {}⟩ :=
    requireHandler_ok_iff.mpr ⟨invalidKnown, rfl, rfl⟩
  have checked : (check.run config.slotCount).run ⟨start, {}⟩ = .ok () ⟨start, {}⟩ :=
    check_ok_iff.mpr ⟨room, rfl⟩
  simp only [readTable, EStateM.run_bind, handled, checked, ran]

section Counts

variable {config : Config} {forest : Forest} {pieces : List (List UInt8)}
variable (invalidKnown : config.invalidHandler.value.toNat < config.handlerCount)
variable (fits : forest.Fits config (maxDepth - 1) [])
variable (listed : List.Forall₂ (fun root piece => Item.Spells root.items piece) forest.roots
  pieces)
include invalidKnown fits listed

/-- Where fewer slots are declared than there are, the payload goes on behind the last of them. -/
theorem ofBytes_fewer_slots (fewer : config.slotCount < forest.width) :
    Table.ofBytes ((Header.ofKind .decoder).toBytes ++ pieces.flatten) config =
      .error (.trailingData (Header.size + (pieces.take config.slotCount).flatten.length)
        (pieces.drop config.slotCount).flatten.length) := by
  have spans := Cursor.spans_take listed Header.size config.slotCount
  rw [← Forest.roots_take, ← Forest.items_eq_flatMap_roots] at spans
  have width : (forest.take config.slotCount).width = config.slotCount := by
    rw [← Forest.roots_length, Forest.roots_take, List.length_take, Forest.roots_length]
    omega
  obtain ⟨made, ran⟩ := readTable_ok_iff.mpr
    ⟨invalidKnown, _, spans, width, fits.take config.slotCount, rfl⟩
  have bound : config.slotCount < forest.roots.length := by rwa [Forest.roots_length]
  exact Build.report_result_left ran (Cursor.pieces_left listed (List.getElem?_eq_getElem bound)
    (Forest.items_of_mem_roots (List.getElem_mem bound)))

/-- Where more slots are declared than there are, the payload ends too early, whether that shows
before the first slot is read or behind the last. -/
theorem ofBytes_more_slots (more : forest.width < config.slotCount) : ∃ offset needed,
    Table.ofBytes ((Header.ofKind .decoder).toBytes ++ pieces.flatten) config =
      .error (.truncated offset needed) := by
  let start : Build.State Arena := ⟨⟨Header.size, pieces.flatten⟩, {}⟩
  suffices ran : ∃ offset needed last,
      (readTable .upFront config).run start = .error (.truncated offset needed) last by
    obtain ⟨offset, needed, last, ran⟩ := ran
    exact ⟨offset, needed, Build.report_result_failed ran⟩
  by_cases enough : room config.slotCount ≤ pieces.flatten.length
  · have whole : Item.Spells forest.items pieces.flatten := by
      rw [Forest.items_eq_flatMap_roots]
      exact Item.spells_flatMap_iff.mpr ⟨pieces, listed, rfl⟩
    obtain ⟨spans, -⟩ := Cursor.spans_end_iff.mpr ⟨whole, rfl⟩
    have nothing : start.made.Holds [] := Arena.Holds.nothing
    obtain ⟨made, ran, -⟩ := @readSlots_complete .upFront _ _ _ _ _ _ fits nothing spans #[]
    obtain ⟨missing, countEq⟩ := Nat.exists_eq_add_of_lt more
    let last : Build.State Arena := ⟨⟨Header.size + pieces.flatten.length, []⟩, made⟩
    have ended : (readSlots (readNode .upFront config (maxDepth - 1)) config.slotCount #[]).run
        start = .error (.truncated last.cursor.offset 1) last := by
      rw [countEq, Nat.add_assoc, readSlots_add]
      simp only [EStateM.run_bind, ran, readSlots, readNode_ended]
      rfl
    exact ⟨_, _, _, readTable_run_error invalidKnown (fun _ => enough) ended⟩
  · have handled : (config.requireHandler config.invalidHandler.value 0).run start =
        .ok ⟨config.invalidHandler.value⟩ start :=
      requireHandler_ok_iff.mpr ⟨invalidKnown, rfl, rfl⟩
    have refused : (RoomCheck.upFront.run config.slotCount).run start =
        .error (.truncated Header.size (room config.slotCount - pieces.flatten.length)) start := by
      have short : start.cursor.holds (room config.slotCount) = false := by
        rw [Bool.eq_false_iff, ne_eq, Cursor.holds_iff]
        exact enough
      rw [EStateM.run, RoomCheck.run, requireRoom]
      simp only [short]
      rfl
    refine ⟨Header.size, room config.slotCount - pieces.flatten.length, start, ?_⟩
    rw [readTable, EStateM.run_bind, handled]
    simp only [EStateM.run_bind, refused]

end Counts

end Dispatch

/-! ## Templates -/

namespace Template

variable {records : List Record} {pieces : List (List UInt8)} {declared count : Nat}

/-- No record starts where the payload ends. -/
theorem readRecord_ended (limit offset : Nat) (emitted : Emitted) :
    (readRecord limit).run ⟨⟨offset, []⟩, emitted⟩ =
      .error (.truncated offset 1) ⟨⟨offset, []⟩, emitted⟩ :=
  rfl

/-- A table fails where its records do. -/
theorem readTable_run_error {before last : Build.State Emitted}
    (ran : (readRecords count count).run before = .error fault last) :
    (readTable count).run before = .error fault last := by
  rw [readTable, EStateM.run_bind, ran]

/-- Where the templates that are asked for end inside those of the records, one record is the
first to go beyond them. -/
theorem exists_beyond (fewer : count < (records.map Record.emissionCount).sum) :
    ∃ (position : Nat) (record : Record), records[position]? = some record ∧
      ((records.take position).map Record.emissionCount).sum ≤ count ∧
      count < ((records.take position).map Record.emissionCount).sum + record.emissionCount := by
  induction records generalizing count with
  | nil => cases fewer
  | cons first others ih =>
    rw [List.map_cons, List.sum_cons] at fewer
    by_cases within : count < first.emissionCount
    · exact ⟨0, first, rfl, Nat.zero_le _, by simpa using within⟩
    · obtain ⟨position, record, found, before, beyond⟩ := @ih (count - first.emissionCount)
        (by omega)
      refine ⟨position + 1, record, found, ?_, ?_⟩
      · rw [List.take_succ_cons, List.map_cons, List.sum_cons]
        omega
      · rw [List.take_succ_cons, List.map_cons, List.sum_cons]
        omega

section Counts

variable (fills : Fills declared [] records)
variable (listed : List.Forall₂ (fun record piece => Item.Spells record.items piece) records pieces)
include fills listed

/-- The first records are read, whatever follows them. -/
private theorem readRecords_first (position : Nat)
    (within : ((records.take position).map Record.emissionCount).sum ≤ count) :
    ∃ (made : Emitted) (left : Nat),
      made.templates.size = ((records.take position).map Record.emissionCount).sum ∧
      count ≤ ((records.take position).map Record.emissionCount).sum + left ∧
      (readRecords count count).run ⟨⟨Header.size, pieces.flatten⟩, {}⟩ =
        (readRecords count left).run
          ⟨⟨Header.size + (pieces.take position).flatten.length, (pieces.drop position).flatten⟩,
            made⟩ := by
  have opening := fills.take position
  have nothing :
      (Build.State.mk ⟨Header.size, pieces.flatten⟩ ({} : Emitted)).made.Holds [] := rfl
  obtain ⟨made, left, held, enough, ran⟩ := readRecords_through nothing opening within
    (Nat.le_add_left _ _) (Cursor.spans_take listed Header.size position)
  refine ⟨made, left, ?_, enough, ran⟩
  rw [held.size_eq, List.length_append, opening.expansions_length]

/-- Where more templates are declared than there are, another record is missing at the end. -/
theorem ofBytes_more_templates (more : declared < count) :
    Table.ofBytes ((Header.ofKind .formatter).toBytes ++ pieces.flatten) count =
      .error (.truncated (Header.size + pieces.flatten.length) 1) := by
  have total := fills.total
  rw [List.length_nil, Nat.zero_add] at total
  obtain ⟨made, left, size, enough, ran⟩ :=
    @readRecords_first _ _ _ count fills listed records.length (by rw [List.take_length]; omega)
  have allPieces := listed.length_eq
  rw [List.take_length] at size enough
  rw [allPieces, List.take_length, List.drop_length] at ran
  obtain ⟨left, rfl⟩ := Nat.exists_eq_add_of_le' (by omega : 1 ≤ left)
  rw [readRecords_succ_run, if_pos (by rw [size]; omega), List.flatten_nil, readRecord_ended] at ran
  exact Build.report_result_failed (readTable_run_error ran)

/-- Where the declared templates end with a record, the records behind it are left over. -/
theorem ofBytes_fewer_templates {position : Nat} (before : position < records.length)
    (same : ((records.take position).map Record.emissionCount).sum = count) :
    Table.ofBytes ((Header.ofKind .formatter).toBytes ++ pieces.flatten) count =
      .error (.trailingData (Header.size + (pieces.take position).flatten.length)
        (pieces.drop position).flatten.length) := by
  let table : Table := ⟨(numbered (expansions none (records.take position))).toArray⟩
  have templates : table.templates.toList = numbered (expansions none (records.take position)) :=
    rfl
  obtain ⟨made, ran⟩ := readTable_ok_iff.mpr ⟨_, same ▸ fills.take position,
    Cursor.spans_take listed Header.size position, templates⟩
  exact Build.report_result_left ran (Cursor.pieces_left listed (List.getElem?_eq_getElem before)
    (Record.items_ne_nil _))

/-- Where the declared templates end inside a family, the family does not fit. -/
theorem ofBytes_within_family {position : Nat} {family : Family}
    (found : records[position]? = some (.family family))
    (before : ((records.take position).map Record.emissionCount).sum < count)
    (beyond : count < ((records.take position).map Record.emissionCount).sum + family.count) :
    Table.ofBytes ((Header.ofKind .formatter).toBytes ++ pieces.flatten) count =
      .error (.malformedRecord (Header.size + (pieces.take position).flatten.length)
        (Ordinal.name family.kind) (.tooManyTemplates family.count
          (count - ((records.take position).map Record.emissionCount).sum))) := by
  obtain ⟨made, left, size, enough, ran⟩ :=
    readRecords_first fills listed position (Nat.le_of_lt before)
  obtain ⟨after, spans⟩ := Cursor.spans_getElem listed
    (Header.size + (pieces.take position).flatten.length) found
  have wellFormed := fills.wellFormed _ (List.mem_of_getElem? found)
  obtain ⟨left, rfl⟩ := Nat.exists_eq_add_of_le' (by omega : 1 ≤ left)
  rw [readRecords_succ_run, if_pos (by rw [size]; omega), readRecord_run wellFormed spans, emit,
    emitFamily_run, if_pos (by rw [size]; omega), size] at ran
  exact Build.report_result_failed (readTable_run_error ran)

end Counts

end Template

/-! ## Payloads -/

/-- An accepted payload fits its declared count and no other. It consists of records, or of root
slots with all that is nested in them. With a larger count it ends too early. With a smaller one
it goes on behind the slots or records that are asked for, unless the count ends inside a family,
which then does not fit. -/
theorem ofBytes_ok_count :
    (∀ payload instructionCount table,
      Template.Table.ofBytes payload instructionCount = .ok table →
      ∃ (records : List Template.Record) (pieces : List (List UInt8)),
        payload = (Header.ofKind .formatter).toBytes ++ pieces.flatten ∧
        List.Forall₂ Template.Record.Listing records pieces ∧
        (∀ record ∈ records, record.WellFormed) ∧
        (records.map Template.Record.emissionCount).sum = instructionCount ∧
        (∀ count, instructionCount < count →
          Template.Table.ofBytes payload count = .error (.truncated payload.length 1)) ∧
        ∀ count < instructionCount,
          (∀ position < records.length,
            ((records.take position).map Template.Record.emissionCount).sum = count →
            Template.Table.ofBytes payload count =
              .error (.trailingData (Header.size + (pieces.take position).flatten.length)
                (pieces.drop position).flatten.length)) ∧
          ((∀ position < records.length,
              ((records.take position).map Template.Record.emissionCount).sum ≠ count) →
            ∃ position family, records[position]? = some (.family family) ∧
              Template.Table.ofBytes payload count =
                .error (.malformedRecord (Header.size + (pieces.take position).flatten.length)
                  (Ordinal.name family.kind) (.tooManyTemplates family.count
                    (count -
                      ((records.take position).map Template.Record.emissionCount).sum))))) ∧
    ∀ payload config table, Dispatch.Table.ofBytes payload config = .ok table →
      ∃ (roots : List Dispatch.Forest) (pieces : List (List UInt8)),
        payload = (Header.ofKind .decoder).toBytes ++ pieces.flatten ∧
        List.Forall₂ Dispatch.Forest.Listing roots pieces ∧
        (∀ root ∈ roots, root.width = 1) ∧ roots.length = config.slotCount ∧
        (∀ slotCount, config.slotCount < slotCount → ∃ offset needed,
          Dispatch.Table.ofBytes payload { config with slotCount } =
            .error (.truncated offset needed)) ∧
        ∀ slotCount < config.slotCount,
          Dispatch.Table.ofBytes payload { config with slotCount } =
            .error (.trailingData (Header.size + (pieces.take slotCount).flatten.length)
              (pieces.drop slotCount).flatten.length) := by
  constructor
  · intro payload instructionCount table accepted
    obtain ⟨records, body, rfl, spells, fills, -⟩ := Template.ofBytes_ok_iff.mp accepted
    obtain ⟨pieces, listed, rfl⟩ := Item.spells_flatMap_iff.mp spells
    have total := fills.total
    rw [List.length_nil, Nat.zero_add] at total
    refine ⟨records, pieces, rfl, (Template.forall₂_listing_iff fills.wellFormed).mpr listed,
      fills.wellFormed, total, ?_, ?_⟩
    · intro count more
      rw [List.length_append]
      exact Template.ofBytes_more_templates fills listed more
    · intro count fewer
      refine ⟨fun position before same => Template.ofBytes_fewer_templates fills listed before same,
        ?_⟩
      intro within
      obtain ⟨position, record, found, before, beyond⟩ :=
        Template.exists_beyond (total.symm ▸ fewer)
      have different := within position (List.getElem?_eq_some_iff.mp found).1
      cases record with
      | previous | reverse =>
        rw [Template.Record.emissionCount] at beyond
        omega
      | family family =>
        exact ⟨position, family, found, Template.ofBytes_within_family fills listed found
          (by omega) beyond⟩
  · intro payload config table accepted
    obtain ⟨known, forest, body, rfl, spells, width, fits, -⟩ :=
      Dispatch.buildWith_ok_iff.mp accepted
    rw [Dispatch.Forest.items_eq_flatMap_roots] at spells
    obtain ⟨pieces, listed, rfl⟩ := Item.spells_flatMap_iff.mp spells
    refine ⟨forest.roots, pieces, rfl, listed.imp fun _ _ => Dispatch.Forest.listing_iff.mpr,
      fun _ => Dispatch.Forest.width_of_mem_roots, Dispatch.Forest.roots_length.trans width, ?_, ?_⟩
    · intro slotCount more
      exact Dispatch.ofBytes_more_slots known (fits.withSlotCount slotCount) listed (width ▸ more)
    · intro slotCount fewer
      exact Dispatch.ofBytes_fewer_slots known (fits.withSlotCount slotCount) listed (width ▸ fewer)

/-- A family of two and another template, and two slots, of which the first holds an array. -/
theorem ofBytes_ok_count_nested :
    (∃ table, Template.Table.ofBytes
        [1, 1, 0xed, 0x1c, 48, 9, 0, 3, 0, 4, 0, 2, 5, 9, 0] 3 = .ok table) ∧
      Template.Table.ofBytes [1, 1, 0xed, 0x1c, 48, 9, 0, 3, 0, 4, 0, 2, 5, 9, 0] 4 =
        .error (.truncated 15 1) ∧
      (∃ table, Dispatch.Table.ofBytes
        [1, 0, 0xed, 0x1c, 1, 1, 7, 0, 0, 1, 0, 0, 0, 0] ⟨2, 2, {}⟩ = .ok table) ∧
      ∃ offset length, Dispatch.Table.ofBytes
        [1, 0, 0xed, 0x1c, 1, 1, 7, 0, 0, 1, 0, 0, 0, 0] ⟨1, 2, {}⟩ =
          .error (.trailingData offset length) := by
  have templates : Template.Table.ofBytes
      [1, 1, 0xed, 0x1c, 48, 9, 0, 3, 0, 4, 0, 2, 5, 9, 0] 3 =
        .ok ⟨#[⟨⟨0⟩, .pops, ⟨9⟩, 0, .unmarked, [⟨3⟩, ⟨4⟩], .ofList [.pseudoOps]⟩,
          ⟨⟨1⟩, .pops, ⟨9⟩, 1, .unmarked, [⟨3⟩, ⟨4⟩], .ofList [.pseudoOps]⟩,
          ⟨⟨2⟩, .string, ⟨9⟩, 0, .unmarked, [], .ofList [.string]⟩]⟩ := by
    decide +kernel
  have slots : Dispatch.Table.ofBytes [1, 0, 0xed, 0x1c, 1, 1, 7, 0, 0, 1, 0, 0, 0, 0] ⟨2, 2, {}⟩ =
      .ok ⟨#[.array ⟨0⟩ 1, .handler ⟨0⟩], #[#[.handler ⟨1⟩]], {}⟩ := by
    decide +kernel
  obtain ⟨_, _, -, -, -, -, more, -⟩ := ofBytes_ok_count.1 _ _ _ templates
  obtain ⟨_, _, -, -, -, -, -, fewer⟩ := ofBytes_ok_count.2 _ _ _ slots
  exact ⟨⟨_, templates⟩, more 4 (by decide), ⟨_, slots⟩, _, _, fewer 1 (by decide)⟩

end InstructionTables
