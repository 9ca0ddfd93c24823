import InstructionTables.Proofs.DispatchForest
import InstructionTables.Proofs.ReadSpelling

/-! A dispatch payload is accepted exactly when it spells a forest that keeps to the rules,
and the table is that of the forest. Every step of a build is first turned into the condition
under which it succeeds. The arena is related to the arrays of the part of the forest that has
been read, and slots are followed through the build in both directions. -/
namespace InstructionTables.Dispatch

/-! ## Steps -/

section Steps

variable {config : Config} {before after : Build.State Arena}

theorem requireHandler_ok_iff {id : UInt16} :
    (config.requireHandler id start).run before = .ok handler after ↔
      id.toNat < config.handlerCount ∧ handler = ⟨id⟩ ∧ after = before := by
  rw [Config.requireHandler]
  split
  · rename_i known
    rw [run_pure_eq_ok, and_iff_right known]
  · rename_i unknown
    exact ⟨fun ran => absurd ran run_throw_ne_ok, fun ⟨known, _⟩ => absurd known unknown⟩

/-- Where room is made up front, the bytes that are left have to hold the slots. -/
def RoomCheck.Holds (check : RoomCheck) (slots : Nat) (cursor : Cursor) : Prop :=
  check = .upFront → room slots ≤ cursor.remaining

theorem check_ok_iff {check : RoomCheck} {nothing : Unit} :
    (check.run slots).run before = .ok nothing after ↔
      check.Holds slots before.cursor ∧ after = before := by
  cases check with
  | upFront =>
    rw [RoomCheck.run, EStateM.run, requireRoom, RoomCheck.Holds]
    simp only [Cursor.holds_iff]
    split <;> rename_i held <;> simp [held, eq_comm]
  | whenMissing =>
    rw [RoomCheck.run, run_pure_eq_ok]
    simp [RoomCheck.Holds]

theorem share_ok_iff :
    (Arena.share reference start).run before = .ok node after ↔
      (∃ position, before.made.find? reference = some position ∧
        node = before.made.node position) ∧ after = before := by
  rw [EStateM.run, Arena.share]
  cases before.made.find? reference <;> simp [eq_comm]

theorem requireFresh_ok_iff {nothing : Unit} :
    (Arena.requireFresh reference start).run before = .ok nothing after ↔
      before.made.find? reference = none ∧ after = before := by
  rw [EStateM.run, Arena.requireFresh]
  cases before.made.find? reference <;> simp [eq_comm]

theorem define_ok_iff :
    (Arena.define reference size slots).run before = .ok node after ↔
      node = .array (.ofIndex before.made.size) (UInt32.ofNat size) ∧
        after = ⟨before.cursor, before.made.push ⟨reference, slots⟩ size⟩ := by
  rw [EStateM.run, Arena.define, EStateM.Result.ok.injEq, eq_comm, eq_comm (b := after)]

/-- An array is read when its name is new before and after its slots, and there is room. -/
theorem readArray_ok_iff {check : RoomCheck} {readSlot : Build Arena Node} :
    (readArray check readSlot size reference start).run before = .ok node after ↔
      before.made.find? reference = none ∧ check.Holds size before.cursor ∧
        ∃ slots middle, (readSlots readSlot size #[]).run before = .ok slots middle ∧
          middle.made.find? reference = none ∧
          node = .array (.ofIndex middle.made.size) (UInt32.ofNat size) ∧
          after = ⟨middle.cursor, middle.made.push ⟨reference, slots⟩ size⟩ := by
  simp only [readArray, run_bind_eq_ok, requireFresh_ok_iff, check_ok_iff, define_ok_iff]
  constructor
  · rintro ⟨_, _, ⟨fresh, rfl⟩, _, _, ⟨room, rfl⟩, slots, middle, ran, _, _, ⟨still, rfl⟩, done⟩
    exact ⟨fresh, room, slots, _, ran, still, done⟩
  · rintro ⟨fresh, room, slots, middle, ran, still, done⟩
    exact ⟨(), before, ⟨fresh, rfl⟩, (), before, ⟨room, rfl⟩, slots, middle, ran, (), middle,
      ⟨still, rfl⟩, done⟩

/-- An array with a new name and with room for its slots is read by reading those. -/
theorem readArray_run {check : RoomCheck} {readSlot : Build Arena Node}
    (fresh : before.made.find? reference = none) (room : check.Holds size before.cursor) :
    (readArray check readSlot size reference start).run before =
      (readSlots readSlot size #[] >>= fun slots => do
        Arena.requireFresh reference start
        Arena.define reference size slots : Build Arena Node).run before := by
  have isFresh : (Arena.requireFresh reference start).run before = .ok () before :=
    requireFresh_ok_iff.mpr ⟨fresh, rfl⟩
  have hasRoom : (check.run size).run before = .ok () before := check_ok_iff.mpr ⟨room, rfl⟩
  rw [readArray, EStateM.run_bind, isFresh]
  simp only [EStateM.run_bind, hasRoom]

/-- A record is read exactly where its items are spelled. -/
theorem record_ok_iff {before after : Cursor} :
    Record.read.run before = .ok record after ↔ before.Spans record.items after := by
  rw [Record.read, run_bind_eq_ok]
  constructor
  · rintro ⟨tag, middle, tagRan, ran⟩
    have opening := Read.tag_ok_iff.mp tagRan
    cases tag with
    | handlerReference =>
      simp only [run_bind_eq_ok, Read.reference_ok_iff, run_pure_eq_ok] at ran
      obtain ⟨id, _, spans, rfl, rfl⟩ := ran
      exact opening.trans spans
    | arrayReference =>
      simp only [run_bind_eq_ok, Read.reference_ok_iff, Read.varint_ok_iff, run_pure_eq_ok] at ran
      obtain ⟨size, _, sized, reference, _, named, rfl, rfl⟩ := ran
      exact opening.trans (sized.trans named)
  · intro spans
    cases record with
    | handler id =>
      obtain ⟨middle, opening, spans⟩ := Cursor.spans_cons_iff.mp spans
      refine ⟨.handlerReference, middle, Read.tag_ok_iff.mpr opening, ?_⟩
      simp only [run_bind_eq_ok, Read.reference_ok_iff, run_pure_eq_ok]
      exact ⟨id, after, spans, rfl, rfl⟩
    | array size reference =>
      obtain ⟨middle, opening, spans⟩ := Cursor.spans_cons_iff.mp spans
      obtain ⟨later, sized, named⟩ := Cursor.spans_cons_iff.mp spans
      refine ⟨.arrayReference, middle, Read.tag_ok_iff.mpr opening, ?_⟩
      simp only [run_bind_eq_ok, Read.reference_ok_iff, Read.varint_ok_iff, run_pure_eq_ok]
      exact ⟨size, later, sized, reference, after, named, rfl, rfl⟩

/-- Behind the record of an array, what is left to do is to read the array. -/
theorem readSlot_array_run {readNested : Nat → UInt16 → Nat → Build Arena Node}
    (spans : before.cursor.Spans (Record.array size reference).items first) (defined : size ≠ 0) :
    (readSlot config readNested).run before =
      (readNested size.toNat reference before.cursor.offset).run ⟨first, before.made⟩ := by
  have read : (Build.ofRead Record.read).run before =
      .ok (.array size reference) ⟨first, before.made⟩ :=
    Build.ofRead_ok_iff.mpr ⟨record_ok_iff.mpr spans, rfl⟩
  rw [readSlot, EStateM.run_bind, Build.offset_run]
  simp only [EStateM.run_bind, read, if_neg defined]

/-- A slot holds a known handler, shares a complete array, or defines an array by whatever
reads the slots below it. -/
theorem readSlot_ok_iff {readNested : Nat → UInt16 → Nat → Build Arena Node} :
    (readSlot config readNested).run before = .ok node after ↔
      (∃ id, before.cursor.Spans (Record.handler id).items after.cursor ∧
        id.toNat < config.handlerCount ∧ node = .handler ⟨id⟩ ∧ after.made = before.made) ∨
      (∃ reference position, before.cursor.Spans (Record.array 0 reference).items after.cursor ∧
        before.made.find? reference = some position ∧ node = before.made.node position ∧
          after.made = before.made) ∨
      ∃ size reference middle, before.cursor.Spans (Record.array size reference).items middle ∧
        size ≠ 0 ∧ (readNested size.toNat reference before.cursor.offset).run
          ⟨middle, before.made⟩ = .ok node after := by
  simp only [readSlot, run_bind_eq_ok, Build.ofRead_ok_iff, Read.offset_ok_iff, record_ok_iff]
  constructor
  · rintro ⟨_, ⟨_, _⟩, ⟨⟨rfl, rfl⟩, rfl⟩, record, ⟨cursor, _⟩, ⟨spans, rfl⟩, ran⟩
    cases record with
    | handler id =>
      simp only [run_bind_eq_ok, requireHandler_ok_iff, run_pure_eq_ok] at ran
      obtain ⟨_, _, ⟨known, rfl, rfl⟩, rfl, rfl⟩ := ran
      exact Or.inl ⟨id, spans, known, rfl, rfl⟩
    | array size reference =>
      by_cases shared : size = 0
      · simp only [shared, ↓reduceIte, share_ok_iff] at ran
        obtain ⟨⟨position, found, rfl⟩, rfl⟩ := ran
        exact Or.inr (Or.inl ⟨reference, position, shared ▸ spans, found, rfl, rfl⟩)
      · simp only [shared, ↓reduceIte] at ran
        exact Or.inr (Or.inr ⟨size, reference, cursor, spans, shared, ran⟩)
  · obtain ⟨first, made⟩ := before
    obtain ⟨past, later⟩ := after
    rintro (⟨id, spans, known, rfl, rfl⟩ | ⟨reference, position, spans, found, rfl, rfl⟩ |
      ⟨size, reference, middle, spans, defined, ran⟩)
    · refine ⟨_, _, ⟨⟨rfl, rfl⟩, rfl⟩, .handler id, ⟨past, later⟩, ⟨spans, rfl⟩, ?_⟩
      simp only [run_bind_eq_ok, requireHandler_ok_iff, run_pure_eq_ok]
      exact ⟨_, _, ⟨known, rfl, rfl⟩, rfl, rfl⟩
    · refine ⟨_, _, ⟨⟨rfl, rfl⟩, rfl⟩, .array 0 reference, ⟨past, later⟩, ⟨spans, rfl⟩, ?_⟩
      simp only [↓reduceIte, share_ok_iff]
      exact ⟨⟨position, found, rfl⟩, trivial⟩
    · refine ⟨first.offset, ⟨first, made⟩, ⟨⟨rfl, rfl⟩, rfl⟩, .array size reference,
        ⟨middle, made⟩, ⟨spans, rfl⟩, ?_⟩
      simp only [defined, ↓reduceIte]
      exact ran

end Steps

/-! ## Arenas -/

/-- The events of arrays that are complete, in the order of their ids. -/
def traces (complete : List (UInt16 × Forest)) : List Event :=
  complete.mapIdx fun position array => .arrayDefined array.1 (.ofIndex position) array.2.width

/-- The arena holds these arrays, in this order, under names of their own, and every slot of
theirs that names an array names one of them. They are what has been logged. -/
structure Arena.Holds (arena : Arena) (complete : List (UInt16 × Forest)) : Prop where
  definitions : arena.definitions.toList =
    complete.map fun array => ⟨array.1, (array.2.nodes complete).toArray⟩
  closed : ∀ array ∈ complete, ∀ reference ∈ array.2.references,
    reference ∈ complete.map Prod.fst
  distinct : (complete.map Prod.fst).Nodup
  events : arena.events = traces complete

namespace Arena.Holds

variable {arena : Arena} {complete : List (UInt16 × Forest)}

theorem nothing : ({} : Arena).Holds [] :=
  ⟨rfl, nofun, List.nodup_nil, rfl⟩

theorem size_eq (held : arena.Holds complete) : arena.size = complete.length := by
  rw [Arena.size, ← Array.length_toList, held.definitions, List.length_map]

/-- A name is found at the position of its first array. -/
theorem find?_eq (held : arena.Holds complete) (reference : UInt16) :
    (arena.find? reference).map Fin.val = (complete.map Prod.fst).idxOf? reference := by
  rw [Arena.find?_eq, ← @Array.toArray_toList _ arena.definitions, List.findIdx?_toArray,
    held.definitions, List.findIdx?_map, List.idxOf?, List.findIdx?_map]
  rfl

theorem find?_eq_none_iff (held : arena.Holds complete) :
    arena.find? reference = none ↔ reference ∉ complete.map Prod.fst := by
  rw [← List.idxOf?_eq_none_iff, ← held.find?_eq, Option.map_eq_none_iff]

/-- An array found under a name has the node of that name. -/
theorem node_eq (held : arena.Holds complete) (found : arena.find? reference = some position) :
    arena.node position = Forest.node complete reference := by
  have positionEq : (complete.map Prod.fst).idxOf reference = position := by
    have foundAt := held.find?_eq reference
    rw [found, Option.map_some] at foundAt
    rw [List.idxOf, List.findIdx_eq_getD_findIdx?, ← List.idxOf?, ← foundAt, Option.getD_some]
  have bound : position.val < complete.length := held.size_eq ▸ position.isLt
  have slotsEq : arena.definitions[position].slots.size = complete[position.val].2.width := by
    have definitionEq : arena.definitions.toList[position.val]? =
        some arena.definitions[position] := by
      simp
    rw [held.definitions, List.getElem?_map, List.getElem?_eq_getElem bound, Option.map_some,
      Option.some.injEq] at definitionEq
    rw [← definitionEq]
    exact Forest.nodes_length _
  simp only [Forest.node, positionEq, List.getElem?_eq_getElem bound, Option.map_some,
    Option.getD_some, Arena.node, slotsEq]

/-- An array can be shared under the names of complete arrays. -/
theorem shared_iff (held : arena.Holds complete) {slot : Node} :
    (∃ position, arena.find? reference = some position ∧ slot = arena.node position) ↔
      reference ∈ complete.map Prod.fst ∧ slot = Forest.node complete reference := by
  constructor
  · rintro ⟨position, found, rfl⟩
    refine ⟨?_, held.node_eq found⟩
    by_contra absent
    rw [held.find?_eq_none_iff.mpr absent] at found
    cases found
  · rintro ⟨member, rfl⟩
    cases found : arena.find? reference with
    | none => exact absurd member (held.find?_eq_none_iff.mp found)
    | some position => exact ⟨position, rfl, (held.node_eq found).symm⟩

/-- An array that has been read below the complete ones can be added under a new name. -/
theorem push {slots : Forest} (held : arena.Holds (complete ++ slots.arrays))
    (fits : slots.Fits config levels (complete.map Prod.fst))
    (fresh : reference ∉ complete.map Prod.fst ++ slots.names) :
    (arena.push ⟨reference, (slots.nodes (complete ++ slots.arrays)).toArray⟩ slots.width).Holds
      (complete ++ slots.arrays ++ [(reference, slots)]) := by
  have names : (complete ++ slots.arrays).map Prod.fst = complete.map Prod.fst ++ slots.names :=
    List.map_append
  have closed : ∀ name ∈ slots.references, name ∈ (complete ++ slots.arrays).map Prod.fst :=
    names ▸ fits.shares.references_subset
  constructor
  · have kept : ∀ array ∈ complete ++ slots.arrays,
        array.2.nodes (complete ++ slots.arrays ++ [(reference, slots)]) =
          array.2.nodes (complete ++ slots.arrays) :=
      fun array member => Forest.nodes_append (held.closed array member)
    rw [Arena.push, Array.toList_push, held.definitions,
      @List.map_append _ _ _ (complete ++ slots.arrays), List.map_singleton,
      Forest.nodes_append closed]
    congr 1
    exact List.map_congr_left fun array member => by rw [kept array member]
  · intro array member name named
    rw [List.map_append, List.mem_append]
    rcases List.mem_append.mp member with earlier | last
    · exact Or.inl (held.closed array earlier name named)
    · rw [List.mem_singleton.mp last] at named
      exact Or.inl (closed name named)
  · rw [List.map_append, List.nodup_append]
    refine ⟨held.distinct, List.nodup_singleton _, ?_⟩
    rintro name member _ last rfl
    rw [List.mem_singleton.mp last] at member
    exact fresh (names ▸ member)
  · rw [Arena.events_push, held.events, held.size_eq, traces, traces, List.mapIdx_concat]

end Arena.Holds

/-! ## Slots -/

section Slots

variable {check : RoomCheck} {config : Config} {before after : Build.State Arena}
variable {complete : List (UInt16 × Forest)}

/-- What a slot can be at a level: a handler, a shared array, or an array one level below. -/
theorem readNode_ok_iff :
    (readNode check config levels).run before = .ok node after ↔
      (∃ id, before.cursor.Spans (Record.handler id).items after.cursor ∧
        id.toNat < config.handlerCount ∧ node = .handler ⟨id⟩ ∧ after.made = before.made) ∨
      (∃ reference position, before.cursor.Spans (Record.array 0 reference).items after.cursor ∧
        before.made.find? reference = some position ∧ node = before.made.node position ∧
          after.made = before.made) ∨
      ∃ below size reference middle, levels = below + 1 ∧
        before.cursor.Spans (Record.array size reference).items middle ∧ size ≠ 0 ∧
          (readArray check (readNode check config below) size.toNat reference
            before.cursor.offset).run ⟨middle, before.made⟩ = .ok node after := by
  cases levels with
  | zero =>
    rw [readNode, readSlot_ok_iff]
    refine or_congr Iff.rfl (or_congr Iff.rfl ⟨?_, ?_⟩)
    · rintro ⟨size, reference, middle, spans, defined, ran⟩
      exact absurd ran run_throw_ne_ok
    · rintro ⟨below, size, reference, middle, levels, others⟩
      cases levels
  | succ levels =>
    rw [readNode, readSlot_ok_iff]
    refine or_congr Iff.rfl (or_congr Iff.rfl ⟨?_, ?_⟩)
    · rintro ⟨size, reference, middle, others⟩
      exact ⟨levels, size, reference, middle, rfl, others⟩
    · rintro ⟨below, size, reference, middle, same, others⟩
      cases same
      exact ⟨size, reference, middle, others⟩

theorem readSlots_zero_ok_iff {readSlot : Build Arena Node} :
    (readSlots readSlot 0 slots).run before = .ok result after ↔
      result = slots ∧ after = before :=
  run_pure_eq_ok

theorem readSlots_succ_ok_iff {readSlot : Build Arena Node} :
    (readSlots readSlot (count + 1) slots).run before = .ok result after ↔
      ∃ node middle, readSlot.run before = .ok node middle ∧
        (readSlots readSlot count (slots.push node)).run middle = .ok result after :=
  run_bind_eq_ok

theorem names_append (slots : Forest) :
    (complete ++ slots.arrays ++ [(reference, slots)]).map Prod.fst =
      complete.map Prod.fst ++ slots.names ++ [reference] := by
  rw [List.map_append, List.map_append]
  rfl

/-- The node of an array is that of its name, whatever arrays follow. -/
theorem node_define {slots : Forest} (fresh : reference ∉ complete.map Prod.fst ++ slots.names) :
    Forest.node (complete ++ (Forest.define reference slots rest).arrays) reference =
      .array (.ofIndex (complete ++ slots.arrays).length) (UInt32.ofNat slots.width) := by
  have member : reference ∈ (complete ++ slots.arrays ++ [(reference, slots)]).map Prod.fst := by
    simp
  rw [Forest.arrays_define, ← List.append_assoc, ← List.append_assoc, Forest.node_append member]
  exact Forest.node_last (by rwa [List.map_append])

/-- Slots that are read are those of a forest that keeps to the rules, and the arena grows by
the arrays of the forest. -/
theorem readSlots_sound (levels : Nat) (held : before.made.Holds complete)
    (ran : (readSlots (readNode check config levels) count slots).run before = .ok result after) :
    ∃ forest : Forest, forest.width = count ∧
      forest.Fits config levels (complete.map Prod.fst) ∧
      before.cursor.Spans forest.items after.cursor ∧
      after.made.Holds (complete ++ forest.arrays) ∧
      result = slots ++ (forest.nodes (complete ++ forest.arrays)).toArray := by
  -- An array is read one level below its slot, and the slots after it at the same level.
  induction levels using Nat.strongRecOn generalizing count complete slots result before after with
  | ind levels outer =>
  induction count generalizing complete slots before with
  | zero =>
    obtain ⟨rfl, rfl⟩ := readSlots_zero_ok_iff.mp ran
    refine ⟨.nil, rfl, Forest.fits_nil_iff.mpr held.distinct, Cursor.spans_nil_iff.mpr rfl, ?_, ?_⟩
    · simpa [Forest.arrays] using held
    · simp [Forest.nodes]
  | succ count ih =>
    obtain ⟨slot, middle, slotRan, ran⟩ := readSlots_succ_ok_iff.mp ran
    rcases readNode_ok_iff.mp slotRan with ⟨id, spans, known, rfl, same⟩ |
      ⟨reference, position, spans, found, rfl, same⟩ |
      ⟨below, size, reference, start, rfl, spans, defined, arrayRan⟩
    · obtain ⟨forest, rfl, fits, rest, made, rfl⟩ := ih (same ▸ held) ran
      refine ⟨.handler id forest, rfl, Forest.fits_handler_iff.mpr ⟨known, fits⟩,
        spans.trans rest, made, ?_⟩
      simp [Forest.nodes, Forest.arrays]
    · obtain ⟨forest, rfl, fits, rest, made, rfl⟩ := ih (same ▸ held) ran
      obtain ⟨member, nodeEq⟩ := held.shared_iff.mp ⟨position, found, rfl⟩
      refine ⟨.share reference forest, rfl, Forest.fits_share_iff.mpr ⟨member, fits⟩,
        spans.trans rest, made, ?_⟩
      simp [Forest.nodes, Forest.arrays, Forest.node_append member, nodeEq]
    · obtain ⟨fresh, room, inner, last, innerRan, still, rfl, rfl⟩ := readArray_ok_iff.mp arrayRan
      have startHeld : (Build.State.mk start before.made).made.Holds complete := held
      obtain ⟨children, width, childrenFit, childrenSpan, childrenMade, innerEq⟩ :=
        outer below (Nat.lt_succ_self below) startHeld innerRan
      rw [Array.empty_append] at innerEq
      subst innerEq
      have sizeEq : UInt32.ofNat children.width = size := by rw [width, UInt32.ofNat_toNat]
      have positive : 0 < size.toNat :=
        Nat.pos_of_ne_zero fun zero => defined (UInt32.toNat_inj.mp zero)
      have unused : reference ∉ complete.map Prod.fst ++ children.names := by
        have absent := childrenMade.find?_eq_none_iff.mp still
        rwa [List.map_append] at absent
      have added : (Build.State.mk last.cursor
          (last.made.push ⟨reference, _⟩ size.toNat)).made.Holds _ :=
        width ▸ childrenMade.push childrenFit unused
      obtain ⟨forest, rfl, fits, rest, made, rfl⟩ := ih added ran
      rw [names_append] at fits
      refine ⟨.define reference children forest, rfl, ?_, ?_, ?_, ?_⟩
      · refine Forest.fits_define_iff.mpr ⟨below, rfl, ?_, childrenFit, unused, fits⟩
        rw [width]
        exact ⟨positive, size.toNat_lt⟩
      · rw [Forest.items_define, sizeEq]
        exact spans.trans (childrenSpan.trans rest)
      · rw [Forest.arrays_define, ← List.append_assoc, ← List.append_assoc]
        exact made
      · rw [Forest.nodes, node_define unused]
        simp [Forest.arrays, width, childrenMade.size_eq]

/-- Slots that are there have room. -/
theorem RoomCheck.holds_of_spans {forest : Forest} {cursor : Cursor}
    (spans : cursor.Spans forest.items last) : check.Holds forest.width cursor := by
  intro _
  obtain ⟨bytes, spells, restEq, -⟩ := spans
  have least := Forest.minSize_mul_width_le spells
  rw [Cursor.remaining, restEq, List.length_append, room, mul_comm]
  omega

/-- Slots that keep to the rules are read wherever they are spelled. -/
theorem readSlots_complete {forest : Forest}
    (fits : forest.Fits config levels (complete.map Prod.fst))
    (held : before.made.Holds complete) (spans : before.cursor.Spans forest.items last)
    (slots : Array Node) : ∃ made,
      (readSlots (readNode check config levels) forest.width slots).run before =
        .ok (slots ++ (forest.nodes (complete ++ forest.arrays)).toArray) ⟨last, made⟩ ∧
      made.Holds (complete ++ forest.arrays) := by
  induction forest generalizing levels complete slots before last with
  | nil =>
    obtain rfl := Cursor.spans_nil_iff.mp spans
    refine ⟨before.made, readSlots_zero_ok_iff.mpr ⟨?_, rfl⟩, ?_⟩
    · simp [Forest.nodes]
    · simpa [Forest.arrays] using held
  | handler id rest ih =>
    obtain ⟨middle, opening, others⟩ := Cursor.spans_append_iff.mp spans
    obtain ⟨known, restFit⟩ := Forest.fits_handler_iff.mp fits
    have next : (Build.State.mk middle before.made).made.Holds complete := held
    obtain ⟨made, ran, restHeld⟩ := ih restFit next others (slots.push (.handler ⟨id⟩))
    refine ⟨made, readSlots_succ_ok_iff.mpr ⟨_, ⟨middle, before.made⟩, ?_, ran.trans ?_⟩, restHeld⟩
    · exact readNode_ok_iff.mpr (Or.inl ⟨id, opening, known, rfl, rfl⟩)
    · simp [Forest.nodes, Forest.arrays]
  | share reference rest ih =>
    obtain ⟨middle, opening, others⟩ := Cursor.spans_append_iff.mp spans
    obtain ⟨member, restFit⟩ := Forest.fits_share_iff.mp fits
    have next : (Build.State.mk middle before.made).made.Holds complete := held
    obtain ⟨position, found, nodeEq⟩ := held.shared_iff.mpr ⟨member, rfl⟩
    obtain ⟨made, ran, restHeld⟩ :=
      ih restFit next others (slots.push (Forest.node complete reference))
    refine ⟨made, readSlots_succ_ok_iff.mpr ⟨_, ⟨middle, before.made⟩, ?_, ran.trans ?_⟩, restHeld⟩
    · exact readNode_ok_iff.mpr
        (Or.inr (Or.inl ⟨reference, position, opening, found, nodeEq, rfl⟩))
    · simp [Forest.nodes, Forest.arrays, Forest.node_append member]
  | define reference children rest inner ih =>
    rw [Forest.items_define] at spans
    obtain ⟨start, opening, others⟩ := Cursor.spans_append_iff.mp spans
    obtain ⟨past, childrenSpan, restSpan⟩ := Cursor.spans_append_iff.mp others
    obtain ⟨below, rfl, width, childrenFit, unused, restFit⟩ := Forest.fits_define_iff.mp fits
    have sizeEq : (UInt32.ofNat children.width).toNat = children.width :=
      UInt32.toNat_ofNat_of_lt width.2
    have startHeld : (Build.State.mk start before.made).made.Holds complete := held
    obtain ⟨middle, childrenRan, childrenHeld⟩ := inner childrenFit startHeld childrenSpan #[]
    rw [Array.empty_append] at childrenRan
    have added : (Build.State.mk past
        (middle.push ⟨reference, _⟩ children.width)).made.Holds _ :=
      childrenHeld.push childrenFit unused
    rw [← names_append] at restFit
    obtain ⟨made, ran, restHeld⟩ := ih restFit added restSpan
      (slots.push (.array (.ofIndex middle.size) (UInt32.ofNat children.width)))
    rw [List.append_assoc, List.append_assoc, ← List.append_assoc children.arrays,
      ← Forest.arrays_define] at ran restHeld
    refine ⟨made, readSlots_succ_ok_iff.mpr ⟨_, _, readNode_ok_iff.mpr (Or.inr (Or.inr
      ⟨below, _, reference, start, rfl, opening, ?_, readArray_ok_iff.mpr ?_⟩)), ran.trans ?_⟩,
      restHeld⟩
    · exact size_ne_zero width
    · have fresh : reference ∉ complete.map Prod.fst :=
        fun member => unused (List.mem_append_left _ member)
      have still := childrenHeld.find?_eq_none_iff.mpr (by rwa [List.map_append])
      rw [sizeEq]
      exact ⟨held.find?_eq_none_iff.mpr fresh, RoomCheck.holds_of_spans childrenSpan, _, _,
        childrenRan, still, rfl, rfl⟩
    · rw [Forest.nodes, node_define unused, childrenHeld.size_eq]
      simp

end Slots

/-! ## Tables -/

theorem table_eq {arena : Arena} {forest : Forest} (held : arena.Holds forest.arrays)
    (invalidHandler : HandlerId) :
    (⟨(forest.nodes forest.arrays).toArray, arena.definitions.map Definition.slots,
      invalidHandler⟩ : Table) = forest.table invalidHandler := by
  rw [Forest.table, Table.mk.injEq]
  refine ⟨rfl, ?_, rfl⟩
  rw [← Array.toList_inj, Array.toList_map, held.definitions, List.map_map]
  rfl

/-- A table is read exactly from slots that keep to the rules, and it is the table of their
forest. -/
theorem readTable_ok_iff {check : RoomCheck} {config : Config} {start last : Cursor} :
    (∃ made, (readTable check config).run ⟨start, {}⟩ = .ok table ⟨last, made⟩) ↔
      config.invalidHandler.value.toNat < config.handlerCount ∧
        ∃ forest : Forest, start.Spans forest.items last ∧ forest.width = config.slotCount ∧
          forest.Fits config (maxDepth - 1) [] ∧ table = forest.table config.invalidHandler := by
  simp only [readTable, run_bind_eq_ok, requireHandler_ok_iff, check_ok_iff, Build.made_ok_iff,
    run_pure_eq_ok]
  constructor
  · rintro ⟨made, _, _, ⟨known, rfl, rfl⟩, _, _, ⟨-, rfl⟩, roots, middle, ran, _, _, ⟨rfl, rfl⟩,
      rfl, rfl⟩
    obtain ⟨forest, width, fits, spans, held, rfl⟩ := readSlots_sound _ Arena.Holds.nothing ran
    rw [List.nil_append] at held
    refine ⟨known, forest, spans, width, fits, ?_⟩
    rw [Array.empty_append, List.nil_append]
    exact table_eq held config.invalidHandler
  · rintro ⟨known, forest, spans, width, fits, rfl⟩
    have nothing : (Build.State.mk start ({} : Arena)).made.Holds [] := Arena.Holds.nothing
    obtain ⟨made, ran, held⟩ := @readSlots_complete check _ _ _ _ _ _ fits nothing spans #[]
    rw [List.nil_append] at held ran
    rw [Array.empty_append, width] at ran
    refine ⟨made, _, _, ⟨known, rfl, rfl⟩, (), _, ⟨width ▸ RoomCheck.holds_of_spans spans, rfl⟩,
      _, _, ran, made, _, ⟨rfl, rfl⟩, ?_, rfl⟩
    exact (table_eq held config.invalidHandler).symm

/-- A payload is accepted exactly when its bytes after the header spell a forest that keeps to
the rules. -/
theorem buildWith_ok_iff {check : RoomCheck} {config : Config} :
    (Table.buildWith check payload config).result = .ok table ↔
      config.invalidHandler.value.toNat < config.handlerCount ∧
        ∃ (forest : Forest) (body : List UInt8),
          payload = (Header.ofKind .decoder).toBytes ++ body ∧ Item.Spells forest.items body ∧
          forest.width = config.slotCount ∧ forest.Fits config (maxDepth - 1) [] ∧
          table = forest.table config.invalidHandler := by
  rw [Table.buildWith, Build.report_result_ok_iff]
  constructor
  · rintro ⟨body, ⟨last, made⟩, payloadEq, ran, ended⟩
    obtain ⟨known, forest, spans, width, fits, tableEq⟩ := readTable_ok_iff.mp ⟨made, ran⟩
    obtain ⟨spells, -⟩ := Cursor.spans_end_iff.mp ⟨spans, ended⟩
    exact ⟨known, forest, body, payloadEq, spells, width, fits, tableEq⟩
  · rintro ⟨known, forest, body, payloadEq, spells, width, fits, tableEq⟩
    obtain ⟨spans, ended⟩ := Cursor.spans_end_iff.mpr ⟨spells, rfl⟩
    obtain ⟨made, ran⟩ := readTable_ok_iff.mpr ⟨known, forest, spans, width, fits, tableEq⟩
    exact ⟨body, _, payloadEq, ran, ended⟩

/-- Only listings of forests that keep to the rules are accepted, and to write the forest of an
accepted payload again, with every size in its shortest form, changes nothing in the table. -/
theorem ofBytes_ok_listing {config : Config} (accepted : Table.ofBytes payload config = .ok table) :
    config.invalidHandler.value.toNat < config.handlerCount ∧
      ∃ (forest : Forest) (body : List UInt8),
        payload = (Header.ofKind .decoder).toBytes ++ body ∧ forest.Listing body ∧
        forest.width = config.slotCount ∧ forest.Fits config (maxDepth - 1) [] ∧
        Table.ofBytes forest.payload config = .ok table := by
  obtain ⟨known, forest, body, payloadEq, spells, width, fits, tableEq⟩ :=
    buildWith_ok_iff.mp accepted
  have again : Table.ofBytes forest.payload config = .ok table := buildWith_ok_iff.mpr
    ⟨known, forest, _, rfl, Item.spells_encodeAll _, width, fits, tableEq⟩
  exact ⟨known, forest, body, payloadEq, Forest.listing_iff.mpr spells, width, fits, again⟩

/-- Sizes of three and of two bytes are read as well. -/
theorem ofBytes_ok_listing_padded : ∃ (forest : Forest) (body : List UInt8),
    [0x01, 0x00, 0xed, 0x1c,
      0x01, 0x82, 0x80, 0x00, 0x40, 0x00, 0x00, 0x01, 0x00, 0x00, 0x02, 0x00,
      0x01, 0x80, 0x00, 0x40, 0x00] = (Header.ofKind .decoder).toBytes ++ body ∧
      forest.Listing body ∧ forest.width = 2 :=
  have accepted : Table.ofBytes [0x01, 0x00, 0xed, 0x1c,
      0x01, 0x82, 0x80, 0x00, 0x40, 0x00, 0x00, 0x01, 0x00, 0x00, 0x02, 0x00,
      0x01, 0x80, 0x00, 0x40, 0x00] ⟨2, 3, {}⟩ =
        .ok ⟨#[.array {} 2, .array {} 2], #[#[.handler ⟨1⟩, .handler ⟨2⟩]], {}⟩ := by
    decide +kernel
  have ⟨_, forest, body, payloadEq, listing, width, _⟩ := ofBytes_ok_listing accepted
  ⟨forest, body, payloadEq, listing, width⟩

end InstructionTables.Dispatch
