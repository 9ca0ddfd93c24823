import InstructionTables.Proofs.ConcatenatedForests
import InstructionTables.Proofs.DeclaredCounts

/-! Dispatch payloads that follow one another under one header. What is read of the second payload
starts from the arena that the first one has left, so that its arrays get higher ids and its names
may be taken already. Both are all that happens: the table is that of the two payloads one after
the other, or the first name that both define is refused where the second payload defines it. -/
namespace InstructionTables.Dispatch

/-! ## Names -/

/-- An array of the payload is called `reference`. -/
def Defines (payload : List UInt8) (reference : UInt16) : Prop :=
  ∃ (records : List Record) (body : List UInt8),
    payload = (Header.ofKind .decoder).toBytes ++ body ∧
    Item.Spells (records.flatMap Record.items) body ∧
    ∃ size, size ≠ 0 ∧ Record.array size reference ∈ records

/-- Bytes spell no more than one list of records. -/
theorem records_unique {records others : List Record} {body : List UInt8}
    (spells : Item.Spells (records.flatMap Record.items) body)
    (spellsOthers : Item.Spells (others.flatMap Record.items) body) : records = others :=
  have written (record : Record) : record.items ≠ [] := by
    cases record <;> exact List.cons_ne_nil _ _
  @Cursor.parts_unique _ Record.items (fun _ => True) Record.read _ _ _ written
    (fun _ _ _ _ => record_ok_iff.mpr) (fun _ _ => trivial) (fun _ _ => trivial) spells
    spellsOthers

namespace Forest

variable {forest : Forest} {config : Config} {levels : Nat} {known : List UInt16}

/-- The names of a forest are those of its records that do not share an array. -/
theorem mem_names_iff (fits : forest.Fits config levels known) :
    reference ∈ forest.names ↔ ∃ size, size ≠ 0 ∧ Record.array size reference ∈ forest.records := by
  induction forest generalizing levels known with
  | nil => simp [names, arrays, records]
  | handler id rest ih =>
    obtain ⟨-, others⟩ := fits_handler_iff.mp fits
    have later := ih others
    simpa [names, arrays, records] using later
  | share name rest ih =>
    obtain ⟨-, others⟩ := fits_share_iff.mp fits
    have later := ih others
    simp only [records, List.mem_cons, Record.array.injEq, names, arrays]
    constructor
    · intro member
      obtain ⟨size, defined, listed⟩ := later.mp member
      exact ⟨size, defined, Or.inr listed⟩
    · rintro ⟨size, defined, ⟨rfl, -⟩ | listed⟩
      · exact absurd rfl defined
      · exact later.mpr ⟨size, defined, listed⟩
  | define name slots rest inner ih =>
    obtain ⟨below, rfl, width, slotsFit, -, restFit⟩ := fits_define_iff.mp fits
    have own : UInt32.ofNat slots.width ≠ 0 := size_ne_zero width
    have slotsNames := inner slotsFit
    have restNames := ih restFit
    simp only [names_define, records, List.mem_append, List.mem_cons, Record.array.injEq]
    constructor
    · rintro (member | rfl | member)
      · obtain ⟨size, defined, listed⟩ := slotsNames.mp member
        exact ⟨size, defined, Or.inr (Or.inl listed)⟩
      · exact ⟨_, own, Or.inl ⟨rfl, rfl⟩⟩
      · obtain ⟨size, defined, listed⟩ := restNames.mp member
        exact ⟨size, defined, Or.inr (Or.inr listed)⟩
    · rintro ⟨size, defined, ⟨-, rfl⟩ | listed | listed⟩
      · exact Or.inr (Or.inl rfl)
      · exact Or.inl (slotsNames.mpr ⟨size, defined, listed⟩)
      · exact Or.inr (Or.inr (restNames.mpr ⟨size, defined, listed⟩))

/-- A payload defines the names of the forest that it spells. -/
theorem defines_iff (spells : Item.Spells forest.items body)
    (fits : forest.Fits config levels known) :
    Defines ((Header.ofKind .decoder).toBytes ++ body) reference ↔ reference ∈ forest.names := by
  rw [mem_names_iff fits]
  constructor
  · rintro ⟨records, rest, same, others, found⟩
    obtain rfl := List.append_cancel_left same
    rwa [records_unique spells others]
  · intro found
    exact ⟨forest.records, body, rfl, spells, found⟩

end Forest

/-! ## Slots behind other arrays -/

section Slots

variable {check : RoomCheck} {config : Config} {before : Build.State Arena}
variable {earlier complete : List (UInt16 × Forest)} {first forest : Forest}

/-- An array is read right after its record. -/
theorem readNode_array_run {size : UInt32}
    (spans : before.cursor.Spans (Record.array size reference).items middle) (defined : size ≠ 0) :
    (readNode check config (levels + 1)).run before =
      (readArray check (readNode check config levels) size.toNat reference
        before.cursor.offset).run ⟨middle, before.made⟩ := by
  rw [readNode, readSlot_array_run spans defined]

theorem requireFresh_run_taken {arena : Arena} (taken : arena.find? reference ≠ none)
    (cursor : Cursor) (start : Nat) :
    (Arena.requireFresh reference start).run ⟨cursor, arena⟩ =
      .error (.duplicateArray reference start) ⟨cursor, arena⟩ := by
  rw [EStateM.run, Arena.requireFresh]
  simp only [Option.isSome_iff_ne_none.mpr taken, ↓reduceIte]

/-- An array fails where one of its slots does. -/
theorem readArray_run_error {readSlot : Build Arena Node} {last : Build.State Arena}
    (fresh : before.made.find? reference = none) (room : check.Holds size before.cursor)
    (ran : (readSlots readSlot size #[]).run before = .error fault last) :
    (readArray check readSlot size reference start).run before = .error fault last := by
  rw [readArray_run fresh room, EStateM.run_bind, ran]

theorem readSlots_run_error {readSlot : Build Arena Node} {last : Build.State Arena}
    (ran : readSlot.run before = .error fault last) (count : Nat) (slots : Array Node) :
    (readSlots readSlot (count + 1) slots).run before = .error fault last := by
  rw [readSlots, EStateM.run_bind, ran]

/-- The build is refused a name of the forest that one of the earlier arrays has. -/
def Clashes (earlier : List (UInt16 × Forest)) (forest : Forest) (build : Build Arena α)
    (before : Build.State Arena) : Prop :=
  ∃ reference ∈ forest.names, reference ∈ earlier.map Prod.fst ∧
    ∃ offset last, before.cursor.offset ≤ offset ∧
      build.run before = .error (.duplicateArray reference offset) last

/-- Slots that are read change nothing in what the slots behind them are refused. -/
theorem clashes_behind {rest : Forest}
    (fits : first.Fits config levels (complete.map Prod.fst)) (held : before.made.Holds complete)
    (spans : before.cursor.Spans (first.concat rest).items last)
    (clashes : ∀ middle made result, middle.Spans rest.items last →
      made.Holds (complete ++ first.arrays) →
      Clashes earlier rest (readSlots (readNode check config levels) rest.width result)
        ⟨middle, made⟩)
    (slots : Array Node) :
    Clashes earlier (first.concat rest)
      (readSlots (readNode check config levels) (first.concat rest).width slots) before := by
  rw [Forest.items_concat] at spans
  obtain ⟨middle, opening, others⟩ := Cursor.spans_append_iff.mp spans
  obtain ⟨made, ran, firstHeld⟩ := @readSlots_complete check _ _ _ _ _ _ fits held opening slots
  obtain ⟨reference, member, taken, offset, reached, later, failed⟩ :=
    clashes middle made _ others firstHeld
  refine ⟨reference, ?_, taken, offset, reached, ?_, ?_⟩
  · rw [Forest.names_concat]
    exact List.mem_append_right _ member
  · exact opening.offset_le.trans later
  · rw [Forest.width_concat, readSlots_add, EStateM.run_bind, ran]
    exact failed

/-- A slot is refused the name of an earlier array before any of its own slots is read. -/
theorem clashes_own {children rest : Forest} (held : before.made.Holds (earlier ++ complete))
    (spans : before.cursor.Spans (Record.array size reference).items start) (defined : size ≠ 0)
    (own : reference ∈ earlier.map Prod.fst) (count : Nat) (slots : Array Node) :
    Clashes earlier (.define reference children rest)
      (readSlots (readNode check config (below + 1)) (count + 1) slots) before := by
  have known : before.made.find? reference ≠ none := by
    rw [ne_eq, held.find?_eq_none_iff, not_not, List.map_append]
    exact List.mem_append_left _ own
  refine ⟨reference, by simp [Forest.names_define], own, before.cursor.offset,
    ⟨start, before.made⟩, Nat.le_refl _, readSlots_run_error ?_ _ _⟩
  rw [readNode_array_run spans defined, readArray, EStateM.run_bind, requireFresh_run_taken known]

/-- A slot is refused what the slots of its array are refused. -/
theorem clashes_within {children rest : Forest}
    (width : 0 < children.width ∧ children.width < 2 ^ 32)
    (spans : before.cursor.Spans (Record.array (UInt32.ofNat children.width) reference).items start)
    (childrenSpan : start.Spans children.items past) (fresh : before.made.find? reference = none)
    (inner : Clashes earlier children (readSlots (readNode check config below) children.width #[])
      ⟨start, before.made⟩) (count : Nat) (slots : Array Node) :
    Clashes earlier (.define reference children rest)
      (readSlots (readNode check config (below + 1)) (count + 1) slots) before := by
  have sizeEq : (UInt32.ofNat children.width).toNat = children.width :=
    UInt32.toNat_ofNat_of_lt width.2
  obtain ⟨name, member, used, offset, reached, later, failed⟩ := inner
  refine ⟨name, by simp [Forest.names_define, member], used, offset, reached,
    spans.offset_le.trans later, readSlots_run_error ?_ _ _⟩
  rw [readNode_array_run spans (size_ne_zero width), sizeEq]
  exact readArray_run_error fresh (RoomCheck.holds_of_spans childrenSpan) failed

/-- Slots that would keep to the rules without the earlier arrays are refused a name that one of
those has. -/
theorem readSlots_clashes (fits : forest.Fits config levels (complete.map Prod.fst))
    (held : before.made.Holds (earlier ++ complete))
    (spans : before.cursor.Spans forest.items last)
    (taken : ∃ reference ∈ forest.names, reference ∈ earlier.map Prod.fst) (slots : Array Node) :
    Clashes earlier forest (readSlots (readNode check config levels) forest.width slots)
      before := by
  -- The arena holds the earlier arrays and, after those, the arrays of the slots before this one.
  induction forest generalizing levels complete slots before last with
  | nil =>
    obtain ⟨reference, member, -⟩ := taken
    cases member
  | handler id rest ih =>
    obtain ⟨handled, restFit⟩ := Forest.fits_handler_iff.mp fits
    have first : (Forest.handler id .nil).Fits config levels ((earlier ++ complete).map Prod.fst) :=
      Forest.fits_handler_iff.mpr ⟨handled, Forest.fits_nil_iff.mpr held.distinct⟩
    refine clashes_behind first held spans (fun middle made result restSpan restHeld => ?_) slots
    rw [Forest.arrays, Forest.arrays, List.append_nil] at restHeld
    exact ih restFit restHeld restSpan taken result
  | share reference rest ih =>
    obtain ⟨member, restFit⟩ := Forest.fits_share_iff.mp fits
    have known : reference ∈ (earlier ++ complete).map Prod.fst := by
      rw [List.map_append]
      exact List.mem_append_right _ member
    have first : (Forest.share reference .nil).Fits config levels
        ((earlier ++ complete).map Prod.fst) :=
      Forest.fits_share_iff.mpr ⟨known, Forest.fits_nil_iff.mpr held.distinct⟩
    refine clashes_behind first held spans (fun middle made result restSpan restHeld => ?_) slots
    rw [Forest.arrays, Forest.arrays, List.append_nil] at restHeld
    exact ih restFit restHeld restSpan taken result
  | define reference children rest inner ih =>
    obtain ⟨below, rfl, width, childrenFit, unused, restFit⟩ := Forest.fits_define_iff.mp fits
    have listed := spans
    rw [Forest.items_define] at listed
    obtain ⟨start, opening, others⟩ := Cursor.spans_append_iff.mp listed
    obtain ⟨past, childrenSpan, -⟩ := Cursor.spans_append_iff.mp others
    by_cases own : reference ∈ earlier.map Prod.fst
    · exact clashes_own held opening (size_ne_zero width) own _ slots
    by_cases within : ∃ name ∈ children.names, name ∈ earlier.map Prod.fst
    · have fresh : before.made.find? reference = none := by
        rw [held.find?_eq_none_iff, List.map_append, List.mem_append, not_or]
        exact ⟨own, fun member => unused (List.mem_append_left _ member)⟩
      have startHeld : (Build.State.mk start before.made).made.Holds (earlier ++ complete) := held
      have clash := inner childrenFit startHeld childrenSpan within #[]
      exact clashes_within width opening childrenSpan fresh clash _ slots
    · -- The first slot is read as if it were behind nothing, and the name comes after it.
      have apart : (earlier.map Prod.fst).Disjoint (children.names ++ [reference]) := by
        rw [List.disjoint_append_right, List.disjoint_singleton]
        exact ⟨fun name used member => within ⟨name, member, used⟩, own⟩
      have alone : (Forest.define reference children .nil).Fits config (below + 1)
          (complete.map Prod.fst) :=
        Forest.fits_define_iff.mpr ⟨below, rfl, width, childrenFit, unused,
          Forest.fits_nil_iff.mpr (List.nodup_append.mp restFit.distinct).1⟩
      have distinct := held.distinct
      rw [List.map_append] at distinct
      have first := alone.behind distinct (Forest.names_define ▸ apart)
      rw [← List.map_append] at first
      have later : ∃ name ∈ rest.names, name ∈ earlier.map Prod.fst := by
        obtain ⟨name, member, used⟩ := taken
        rw [Forest.names_define, List.append_cons, List.mem_append] at member
        exact ⟨name, member.resolve_left (apart used), used⟩
      rw [← names_append] at restFit
      refine clashes_behind first held spans (fun middle made result restSpan restHeld => ?_) slots
      have restHeld : made.Holds
          (earlier ++ (complete ++ children.arrays ++ [(reference, children)])) := by
        simpa [Forest.arrays] using restHeld
      exact ih restFit restHeld restSpan later result

end Slots

/-! ## Tables -/

section Tables

variable {config : Config} {first others : Forest}

/-- Where two forests share a name, a table is not read past the second one. -/
theorem readTable_clashes {check : RoomCheck} {start middle last : Cursor}
    (invalidKnown : config.invalidHandler.value.toNat < config.handlerCount)
    (width : first.width + others.width = config.slotCount)
    (fits : first.Fits config (maxDepth - 1) []) (spans : start.Spans first.items middle)
    (othersFit : others.Fits config (maxDepth - 1) []) (othersSpan : middle.Spans others.items last)
    (taken : ∃ reference ∈ others.names, reference ∈ first.names) :
    ∃ reference ∈ others.names, reference ∈ first.names ∧ ∃ offset reached,
      middle.offset ≤ offset ∧
        (readTable check config).run ⟨start, {}⟩ =
          .error (.duplicateArray reference offset) reached := by
  have room : check.Holds config.slotCount start := by
    have whole := spans.trans othersSpan
    rw [← Forest.items_concat] at whole
    rw [← width, ← Forest.width_concat]
    exact RoomCheck.holds_of_spans whole
  have nothing : (Build.State.mk start ({} : Arena)).made.Holds [] := Arena.Holds.nothing
  obtain ⟨made, ran, held⟩ := @readSlots_complete check _ _ _ _ _ _ fits nothing spans #[]
  have behind : (Build.State.mk middle made).made.Holds (first.arrays ++ []) := by
    rw [List.append_nil]
    exact held
  have clashes : Clashes first.arrays others
      (readSlots (readNode check config (maxDepth - 1)) others.width
        (#[] ++ (first.nodes ([] ++ first.arrays)).toArray)) ⟨middle, made⟩ :=
    readSlots_clashes othersFit behind othersSpan taken _
  obtain ⟨reference, member, used, offset, reached, later, failed⟩ := clashes
  refine ⟨reference, member, used, offset, reached, later, readTable_run_error invalidKnown room ?_⟩
  rw [← width, readSlots_add, EStateM.run_bind, ran]
  exact failed

end Tables

/-- Two accepted payloads for the same handlers are accepted one after the other under the header
of the first, with the tables one after the other, unless they define a common name. Then the
second payload is refused one of those, and nothing else is wrong before. -/
theorem ofBytes_concat {config : Config} {slotCount : Nat}
    (accepted : Table.ofBytes payload config = .ok table)
    (beside : Table.ofBytes other { config with slotCount } = .ok second) :
    ((∀ reference, Defines payload reference → ¬ Defines other reference) →
      Table.ofBytes (payload ++ other.drop Header.size)
          { config with slotCount := config.slotCount + slotCount } = .ok (table.concat second) ∧
        (table.concat second).arrays.size ≤ 2 ^ 16) ∧
    ∀ common, Defines payload common → Defines other common →
      ∃ reference offset, Defines payload reference ∧ Defines other reference ∧
        payload.length ≤ offset ∧
        Table.ofBytes (payload ++ other.drop Header.size)
            { config with slotCount := config.slotCount + slotCount } =
          .error (.duplicateArray reference offset) := by
  obtain ⟨known, first, body, rfl, spells, width, fits, rfl⟩ := buildWith_ok_iff.mp accepted
  obtain ⟨-, others, rest, rfl, restSpells, restWidth, restFits, rfl⟩ := buildWith_ok_iff.mp beside
  have cut : ((Header.ofKind .decoder).toBytes ++ rest).drop Header.size = rest := rfl
  simp only [first.defines_iff spells fits, others.defines_iff restSpells restFits, cut,
    List.append_assoc]
  have widthBoth : first.width + others.width = config.slotCount + slotCount :=
    congrArg₂ (· + ·) width restWidth
  have firstFits := fits.withSlotCount (config.slotCount + slotCount)
  have othersFit := restFits.withSlotCount (config.slotCount + slotCount)
  constructor
  · intro apart
    have distinct := fits.distinct
    have behind := othersFit.behind ((List.append_nil first.names).symm ▸ distinct) apart
    rw [List.append_nil] at behind
    have bothFit := firstFits.concat behind
    have tableEq := Forest.table_concat config.invalidHandler restFits.distinct fits.shares
      restFits.shares apart
    rw [← tableEq]
    constructor
    · refine buildWith_ok_iff.mpr ⟨known, first.concat others, body ++ rest, rfl, ?_, ?_, bothFit,
        rfl⟩
      · rw [Forest.items_concat]
        exact Item.spells_append_iff.mpr ⟨body, rest, rfl, spells, restSpells⟩
      · rw [Forest.width_concat]
        exact widthBoth
    · rw [Forest.table, List.size_toArray, List.length_map]
      exact Forest.length_le_of_distinct bothFit.distinct
  · intro common named namedBeside
    have spans : (Cursor.mk Header.size (body ++ rest)).Spans first.items
        ⟨Header.size + body.length, rest⟩ :=
      ⟨body, spells, rfl, rfl⟩
    obtain ⟨othersSpan, -⟩ := (@Cursor.spans_end_iff (Header.size + body.length) _ _ _).mpr
      ⟨restSpells, rfl⟩
    obtain ⟨reference, member, used, offset, reached, later, failed⟩ :=
      @readTable_clashes { config with slotCount := config.slotCount + slotCount } _ _ .upFront
        _ _ _ known widthBoth firstFits spans othersFit othersSpan ⟨common, namedBeside, named⟩
    refine ⟨reference, offset, used, member, ?_, Build.report_result_failed failed⟩
    rw [List.length_append]
    exact later

/-- Behind an array that is shared, another payload may define an array under another name, but
not nest one under the same name. -/
theorem ofBytes_concat_shared :
    Table.ofBytes [0x01, 0x00, 0xed, 0x1c,
        0x01, 0x02, 0x40, 0x00, 0x00, 0x01, 0x00, 0x00, 0x02, 0x00, 0x01, 0x00, 0x40, 0x00,
        0x01, 0x01, 0x41, 0x00, 0x00, 0x00, 0x00, 0x01, 0x00, 0x41, 0x00] ⟨4, 3, {}⟩ =
      .ok ⟨#[.array ⟨0⟩ 2, .array ⟨0⟩ 2, .array ⟨1⟩ 1, .array ⟨1⟩ 1],
        #[#[.handler ⟨1⟩, .handler ⟨2⟩], #[.handler ⟨0⟩]], {}⟩ ∧
    ∃ reference offset, 18 ≤ offset ∧
      Table.ofBytes [0x01, 0x00, 0xed, 0x1c,
          0x01, 0x02, 0x40, 0x00, 0x00, 0x01, 0x00, 0x00, 0x02, 0x00, 0x01, 0x00, 0x40, 0x00,
          0x01, 0x01, 0x41, 0x00, 0x01, 0x01, 0x40, 0x00, 0x00, 0x00, 0x00] ⟨3, 3, {}⟩ =
        .error (.duplicateArray reference offset) := by
  let first : Forest := .define 0x40 (.handler 1 (.handler 2 .nil)) (.share 0x40 .nil)
  let apart : Forest := .define 0x41 (.handler 0 .nil) (.share 0x41 .nil)
  let nested : Forest := .define 0x41 (.define 0x40 (.handler 0 .nil) .nil) .nil
  have defined {forest : Forest} (fits : forest.Fits ⟨2, 3, {}⟩ (maxDepth - 1) [])
      {reference : UInt16} : Defines forest.payload reference ↔ reference ∈ forest.names :=
    forest.defines_iff (Item.spells_encodeAll _) fits
  have accepted : Table.ofBytes first.payload ⟨2, 3, {}⟩ =
      .ok ⟨#[.array ⟨0⟩ 2, .array ⟨0⟩ 2], #[#[.handler ⟨1⟩, .handler ⟨2⟩]], {}⟩ := by
    decide +kernel
  have acceptedApart : Table.ofBytes apart.payload ⟨2, 3, {}⟩ =
      .ok ⟨#[.array ⟨0⟩ 1, .array ⟨0⟩ 1], #[#[.handler ⟨0⟩]], {}⟩ := by
    decide +kernel
  have acceptedNested : Table.ofBytes nested.payload ⟨1, 3, {}⟩ =
      .ok ⟨#[.array ⟨1⟩ 1], #[#[.handler ⟨0⟩], #[.array ⟨0⟩ 1]], {}⟩ := by
    decide +kernel
  have both : (Table.mk #[.array ⟨0⟩ 2, .array ⟨0⟩ 2] #[#[.handler ⟨1⟩, .handler ⟨2⟩]] {}).concat
      ⟨#[.array ⟨0⟩ 1, .array ⟨0⟩ 1], #[#[.handler ⟨0⟩]], {}⟩ =
        ⟨#[.array ⟨0⟩ 2, .array ⟨0⟩ 2, .array ⟨1⟩ 1, .array ⟨1⟩ 1],
          #[#[.handler ⟨1⟩, .handler ⟨2⟩], #[.handler ⟨0⟩]], {}⟩ := by
    decide +kernel
  have firstNames : ∀ reference, Defines first.payload reference ↔ reference ∈ first.names :=
    fun _ => defined (by decide)
  constructor
  · have separate : ∀ reference, Defines first.payload reference →
        ¬ Defines apart.payload reference := by
      intro reference named other
      cases List.mem_singleton.mp ((firstNames reference).mp named)
      exact absurd ((defined (by decide)).mp other) (by decide)
    have concatenated := (ofBytes_concat accepted acceptedApart).1 separate
    rw [← both]
    exact concatenated.1
  · obtain ⟨reference, offset, -, -, behind, refused⟩ :=
      (ofBytes_concat accepted acceptedNested).2 0x40 ((firstNames _).mpr (by decide))
        ((defined (by decide)).mpr (by decide))
    exact ⟨reference, offset, behind, refused⟩

end InstructionTables.Dispatch
