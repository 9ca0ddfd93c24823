import InstructionTables.Proofs.TemplateAcceptance

/-! What a built template table can be relied on for. Every template agrees with its kind, and its
neighbours tell where it comes from: a family stands in the table as a whole and in order, and
behind the last of its templates there may be repetitions of that one, each in the order of the
operands or in reverse. The records are followed one after the other. Each adds its templates
behind those that are there, and what the earlier ones can be relied on for stays. -/
namespace InstructionTables.Template

/-! ## Well-placed templates -/

/-- The templates are the same but for their ids. -/
def Repeats (template other : Template) : Prop :=
  { template with id := {} } = { other with id := {} }

/-- The templates differ at most in what differs within a family. -/
structure Sibling (template other : Template) : Prop where
  kind : template.kind = other.kind
  mnemonic : template.mnemonic = other.mnemonic
  operands : template.operands = other.operands
  flags : template.flags = other.flags

/-- The template agrees with its kind. -/
structure Described (template : Template) : Prop where
  operands : template.kind.operandCount? = some template.operands.length
  flags : template.flags = template.kind.shape.flags
  /-- Where the record stores the number of variants, there are no more than 32. -/
  variant : template.variant.toNat < template.kind.emissionCount?.getD 32
  /-- In a family that is spread over sizes, the variant is the position of the size. -/
  spread : ∀ listed, template.kind.shape.emission = .sizes listed →
    listed[template.variant.toNat]? = some template.size
  size : (∀ listed, template.kind.shape.emission ≠ .sizes listed) →
    if template.kind.shape.hasWidth then template.size ∈ [.bits16, .bits32, .bits64]
    else template.size = .unmarked

/-- The template right before a position. -/
def Before (templates : List Template) (position : Nat) (before : Template) : Prop :=
  ∃ earlier, position = earlier + 1 ∧ templates[earlier]? = some before

/-- What holds of the template at a position and of those around it. -/
structure Placed (templates : List Template) (position : Nat) (template : Template) : Prop where
  original : template.kind ≠ .previous
  described : template.kind ≠ .reverse → template.Described
  /-- A later variant repeats the template before it or is the next one of its family. -/
  follows : template.kind ≠ .reverse → template.variant ≠ 0 →
    ∃ before, Before templates position before ∧
      (before.Repeats template ∨
        before.Sibling template ∧ before.variant.toNat + 1 = template.variant.toNat)
  /-- Behind a first variant come all others. -/
  whole : template.kind ≠ .reverse → template.variant = 0 →
    ∀ count, template.kind.emissionCount? = some count → 2 ≤ count → ∀ variant < count,
      ∃ sibling, templates[position + variant]? = some sibling ∧ sibling.Sibling template ∧
        sibling.variant.toNat = variant
  /-- A reversed template repeats the template before it, in the same order or in reverse. -/
  reverse : template.kind = .reverse →
    ∃ before : Template, Before templates position before ∧
      (before.Repeats template ∨
        Template.Repeats { before with
          kind := .reverse
          operands := before.operands.reverse
          flags := before.flags.toggle .reverseOperands } template)

/-- All templates are well placed. -/
def WellPlaced (templates : List Template) : Prop :=
  ∀ position template, templates[position]? = some template → Placed templates position template

section Placement

variable {done more templates : List Template} {template current before : Template}

theorem repeats_iff : template.Repeats current ↔ ∃ id, template = { current with id } := by
  constructor
  · intro same
    exact ⟨template.id, congrArg (fun unnamed : Template => { unnamed with id := template.id }) same⟩
  · rintro ⟨id, rfl⟩
    rfl

/-- A template stays well placed where the templates around it are the same but for their ids. -/
theorem Placed.transfer (placed : Placed templates position current)
    (same : template.Repeats current)
    (kept : ∀ (place : Nat) (other : Template), templates[place]? = some other →
      ∃ beside : Template, more[place]? = some beside ∧ beside.Repeats other) :
    Placed more position template := by
  obtain ⟨id, rfl⟩ := repeats_iff.mp same
  have earlier {before : Template} (first : Before templates position before) :
      ∃ id, Before more position { before with id } := by
    obtain ⟨place, rfl, found⟩ := first
    obtain ⟨_, foundBeside, sameBefore⟩ := kept place before found
    obtain ⟨id, rfl⟩ := repeats_iff.mp sameBefore
    exact ⟨id, place, rfl, foundBeside⟩
  constructor
  · exact placed.original
  · intro original
    obtain ⟨operands, flags, variant, spread, size⟩ := placed.described original
    exact ⟨operands, flags, variant, spread, size⟩
  · intro original later
    obtain ⟨before, first, alike⟩ := placed.follows original later
    obtain ⟨_, first⟩ := earlier first
    refine ⟨_, first, alike.imp_right ?_⟩
    rintro ⟨⟨kind, mnemonic, operands, flags⟩, next⟩
    exact ⟨⟨kind, mnemonic, operands, flags⟩, next⟩
  · intro original first count counted several variant within
    obtain ⟨sibling, found, ⟨kind, mnemonic, operands, flags⟩, number⟩ :=
      placed.whole original first count counted several variant within
    obtain ⟨_, foundBeside, sameSibling⟩ := kept _ sibling found
    obtain ⟨id, rfl⟩ := repeats_iff.mp sameSibling
    exact ⟨_, foundBeside, ⟨kind, mnemonic, operands, flags⟩, number⟩
  · intro reverse
    obtain ⟨before, first, alike⟩ := placed.reverse reverse
    obtain ⟨_, first⟩ := earlier first
    exact ⟨_, first, alike⟩

/-- Templates that are added later change nothing for those that are there. -/
theorem Placed.append (placed : Placed done position template) :
    Placed (done ++ more) position template :=
  placed.transfer rfl fun place other found =>
    have inside := (List.getElem?_eq_some_iff.mp found).1
    ⟨other, by rwa [List.getElem?_append_left inside], rfl⟩

/-- Only what is added has to be looked at. -/
theorem WellPlaced.append (placed : WellPlaced done)
    (added : ∀ position template, more[position]? = some template →
      Placed (done ++ more) (done.length + position) template) :
    WellPlaced (done ++ more) := by
  intro position template found
  by_cases inside : position < done.length
  · rw [List.getElem?_append_left inside] at found
    exact (placed position template found).append
  · rw [List.getElem?_append_right (Nat.le_of_not_lt inside)] at found
    have here := added _ template found
    rwa [Nat.add_sub_cancel' (Nat.le_of_not_lt inside)] at here

/-! ## Records -/

/-- The last template is right before what is added. -/
theorem before_added (last : done.getLast? = some current) :
    Before (done ++ more) done.length current := by
  rw [List.getLast?_eq_getElem?] at last
  obtain ⟨inside, -⟩ := List.getElem?_eq_some_iff.mp last
  exact ⟨done.length - 1, by omega, by rwa [List.getElem?_append_left inside]⟩

/-- No template is there behind the last one, so that a family of several does not start with it. -/
theorem Placed.single_of_last (placed : Placed done (done.length - 1) current)
    (described : current.kind ≠ .reverse) (first : current.variant = 0)
    (counted : current.kind.emissionCount? = some count) : ¬ 2 ≤ count := by
  intro several
  obtain ⟨sibling, found, -⟩ :=
    placed.whole described first count counted several 1 (by omega)
  obtain ⟨inside, -⟩ := List.getElem?_eq_some_iff.mp found
  omega

/-- The last template may be repeated. -/
theorem WellPlaced.repeated (placed : WellPlaced done) (last : done.getLast? = some current) :
    WellPlaced (done ++ [current]) := by
  refine placed.append fun position template found => ?_
  obtain ⟨inside, rfl⟩ := List.getElem?_eq_some_iff.mp found
  obtain rfl : position = 0 := by simpa using inside
  have lastPlaced := placed (done.length - 1) current (by rwa [← List.getLast?_eq_getElem?])
  have earlier : Before (done ++ [current]) done.length current := before_added last
  exact {
    original := lastPlaced.original
    described := lastPlaced.described
    follows := fun _ _ => ⟨current, earlier, Or.inl rfl⟩
    whole := fun described first count counted several =>
      absurd several (lastPlaced.single_of_last described first counted)
    reverse := fun _ => ⟨current, earlier, Or.inl rfl⟩ }

/-- The last template may be repeated in reverse. -/
theorem WellPlaced.reversed (placed : WellPlaced done) (last : done.getLast? = some current) :
    WellPlaced (done ++ [current.reversed]) := by
  refine placed.append fun position template found => ?_
  obtain ⟨inside, rfl⟩ := List.getElem?_eq_some_iff.mp found
  obtain rfl : position = 0 := by simpa using inside
  have isReverse : current.reversed.kind = .reverse := rfl
  exact {
    original := nofun
    described := fun other => absurd isReverse other
    follows := fun other => absurd isReverse other
    whole := fun other => absurd isReverse other
    reverse := fun _ => ⟨current, before_added last, Or.inr rfl⟩ }

end Placement

/-- A size that stands for no number of bits is the missing one. -/
theorem OperandSize.marked_or_unmarked (size : OperandSize) :
    if size.width?.isSome then size ∈ [.bits16, .bits32, .bits64] else size = .unmarked := by
  cases size <;> simp [width?]

namespace Family

variable {family : Family}

theorem siblings_of_sizes (emission : family.kind.shape.emission = .sizes listed) :
    family.siblings = listed.mapIdx fun position size => (UInt8.ofNat position, size) := by
  rw [siblings, emission]

theorem siblings_of_others (others : ∀ listed, family.kind.shape.emission ≠ .sizes listed) :
    family.siblings =
      (List.range family.count).map fun position => (UInt8.ofNat position, family.size) := by
  rw [siblings]
  split
  · rename_i listed emission
    exact absurd emission (others listed)
  · rfl

/-- The sizes of a family are those of its kind, or its own one for all variants. -/
def SizeAt (family : Family) (position : Nat) (size : OperandSize) : Prop :=
  (∀ listed, family.kind.shape.emission = .sizes listed → listed[position]? = some size) ∧
    ((∀ listed, family.kind.shape.emission ≠ .sizes listed) → size = family.size)

/-- The variants of a family are numbered by position. -/
theorem siblings_getElem? {number : UInt8} {size : OperandSize} (inside : position < family.count)
    (found : family.siblings[position]? = some (number, size)) :
    number = UInt8.ofNat position ∧ family.SizeAt position size := by
  by_cases spread : ∃ listed, family.kind.shape.emission = .sizes listed
  · obtain ⟨listed, emission⟩ := spread
    rw [siblings_of_sizes emission, List.getElem?_mapIdx] at found
    obtain ⟨_, sizeAt, same⟩ := Option.map_eq_some_iff.mp found
    cases same
    refine ⟨rfl, fun other sameEmission => ?_, fun others => absurd emission (others listed)⟩
    cases emission.symm.trans sameEmission
    exact sizeAt
  · have others : ∀ listed, family.kind.shape.emission ≠ .sizes listed :=
      fun listed emission => spread ⟨listed, emission⟩
    rw [siblings_of_others others, List.getElem?_map, List.getElem?_range inside] at found
    cases found
    exact ⟨rfl, fun listed emission => absurd emission (others listed), fun _ => rfl⟩

/-- The template at a position of a family is the variant of that number. -/
theorem expansion_getElem? (wellFormed : family.WellFormed)
    (found : family.expansion[position]? = some template) :
    position < family.count ∧ template = family.variant position template.size ∧
      family.SizeAt position template.size := by
  obtain ⟨inside, -⟩ := List.getElem?_eq_some_iff.mp found
  rw [expansion_length wellFormed] at inside
  rw [expansion_eq wellFormed, List.getElem?_map] at found
  obtain ⟨⟨number, size⟩, listed, rfl⟩ := Option.map_eq_some_iff.mp found
  obtain ⟨rfl, sizeAt⟩ := siblings_getElem? inside listed
  exact ⟨inside, rfl, sizeAt⟩

theorem variant_toNat (wellFormed : family.WellFormed) (inside : position < family.count) :
    (UInt8.ofNat position).toNat = position :=
  UInt8.toNat_ofNat_of_lt (by have bound := wellFormed.count_le; simp only [UInt8.size]; omega)

/-- Every variant of a family has a template, which is a sibling of all others. -/
theorem exists_variant (wellFormed : family.WellFormed) (inside : position < family.count) :
    ∃ template, family.expansion[position]? = some template ∧
      (∀ other size, template.Sibling (family.variant other size)) ∧
      template.variant.toNat = position := by
  have bound : position < family.expansion.length := by rwa [expansion_length wellFormed]
  obtain ⟨-, same, -⟩ := expansion_getElem? wellFormed (List.getElem?_eq_getElem bound)
  refine ⟨_, List.getElem?_eq_getElem bound, ?_⟩
  rw [same]
  exact ⟨fun _ _ => ⟨rfl, rfl, rfl, rfl⟩, variant_toNat wellFormed inside⟩

theorem described_variant {size : OperandSize} (wellFormed : family.WellFormed)
    (inside : position < family.count) (sized : family.SizeAt position size) :
    (family.variant position size).Described := by
  have variantEq := variant_toNat wellFormed inside
  constructor
  · rw [variant, Kind.operandCount?, wellFormed.described, wellFormed.operands]
    rfl
  · rfl
  · have counted := wellFormed.count
    rw [variant, variantEq]
    cases emits : family.kind.emissionCount? with
    | some count =>
      rw [emits] at counted
      rwa [Option.getD_some, ← counted]
    | none => exact lt_of_lt_of_le inside wellFormed.count_le
  · intro listed emission
    rw [variant, variantEq]
    exact sized.1 listed emission
  · intro others
    have stored := family.size.marked_or_unmarked
    rw [wellFormed.size] at stored
    rw [variant, sized.2 others]
    exact stored

/-- The templates of a family are well placed behind others. -/
theorem placed_variant {done : List Template} (wellFormed : family.WellFormed)
    (found : family.expansion[position]? = some template) :
    Placed (done ++ family.expansion) (done.length + position) template := by
  obtain ⟨inside, same, sized⟩ := expansion_getElem? wellFormed found
  rw [same]
  have variantEq := variant_toNat wellFormed inside
  have added {place : Nat} : (done ++ family.expansion)[done.length + place]? =
      family.expansion[place]? := by
    rw [List.getElem?_append_right (Nat.le_add_right _ _), Nat.add_sub_cancel_left]
  constructor
  · intro previous
    have described := wellFormed.described
    rw [show family.kind = .previous from previous] at described
    cases described
  · intro _
    exact described_variant wellFormed inside sized
  · intro _ later
    cases position with
    | zero => exact absurd rfl later
    | succ earlier =>
      obtain ⟨before, foundBefore, siblings, number⟩ :=
        exists_variant wellFormed (Nat.lt_of_succ_lt inside)
      refine ⟨before, ⟨done.length + earlier, rfl, added.trans foundBefore⟩, Or.inr ⟨siblings _ _, ?_⟩⟩
      rw [number]
      exact variantEq.symm
  · intro _ first count counted _ variant within
    obtain rfl : position = 0 := by
      rw [← variantEq]
      exact congrArg UInt8.toNat first
    have countEq := wellFormed.count
    rw [show family.kind.emissionCount? = some count from counted] at countEq
    obtain ⟨sibling, foundSibling, siblings, number⟩ :=
      exists_variant wellFormed (countEq ▸ within)
    exact ⟨sibling, added.trans foundSibling, siblings _ _, number⟩
  · intro reverse
    have described := wellFormed.described
    rw [show family.kind = .reverse from reverse] at described
    cases described

end Family

section Runs

variable {done templates : List Template}

/-- What a record emits is well placed behind well-placed templates. -/
theorem WellPlaced.emit {record : Record} (placed : WellPlaced done)
    (wellFormed : record.WellFormed) (emits : record.Emits limit done) :
    WellPlaced (done ++ record.expansion done.getLast?) := by
  cases record with
  | previous =>
    obtain ⟨current, last⟩ := Option.isSome_iff_exists.mp (List.getLast?_isSome.mpr emits)
    rw [last]
    exact placed.repeated last
  | reverse =>
    obtain ⟨current, last⟩ := Option.isSome_iff_exists.mp (List.getLast?_isSome.mpr emits)
    rw [last]
    exact placed.reversed last
  | family described =>
    exact placed.append fun position template found => Family.placed_variant wellFormed found

/-- Templates stay well placed through any records. -/
theorem WellPlaced.emitAll {records : List Record} (placed : WellPlaced done)
    (fills : Fills limit done records) :
    WellPlaced (done ++ expansions done.getLast? records) := by
  induction records generalizing done with
  | nil =>
    rw [expansions, List.append_nil]
    exact placed
  | cons record records ih =>
    obtain ⟨wellFormed, emits, rest⟩ := fills_cons_iff.mp fills
    rw [expansions_cons]
    exact ih (placed.emit wellFormed emits) rest

/-! ## Tables -/

/-- Ids are nothing that templates are placed by. -/
theorem WellPlaced.numbered (placed : WellPlaced templates) :
    WellPlaced (numbered templates) := by
  intro position template found
  obtain ⟨unnumbered, listed, rfl⟩ := numbered_getElem?_iff.mp found
  exact (placed position unnumbered listed).transfer rfl fun place other otherListed =>
    ⟨_, numbered_getElem?_iff.mpr ⟨other, otherListed, rfl⟩, rfl⟩

end Runs

/-- In every table that is built, a template is found under its own id, and all templates are well
placed. -/
theorem ofBytes_ok_placed (accepted : Table.ofBytes payload instructionCount = .ok table) :
    (∀ id : InstructionId, id.index < table.templates.size →
      ∃ template, table.get? id = some template ∧ template.id = id) ∧
    ∀ position template, table.templates[position]? = some template →
      Placed table.templates.toList position template := by
  obtain ⟨records, body, -, -, fills, templates⟩ := ofBytes_ok_iff.mp accepted
  have nothing : WellPlaced [] := by
    intro position template found
    cases found
  have placed := (nothing.emitAll fills).numbered
  rw [List.nil_append, List.getLast?_nil, ← templates] at placed
  constructor
  · intro id inside
    have found : table.templates.toList[id.index]? = some table.templates[id.index] := by
      simp [inside]
    rw [templates] at found
    obtain ⟨unnumbered, -, same⟩ := numbered_getElem?_iff.mp found
    refine ⟨table.templates[id.index], Array.getElem?_eq_getElem inside, ?_⟩
    rw [same]
    exact congrArg InstructionId.mk UInt32.ofNat_toNat
  · intro position template found
    exact placed position template (by rwa [Array.getElem?_toList])

/-- A family of two sizes, its last template once more, and that one in reverse. -/
theorem ofBytes_ok_placed_sizes :
    ∃ table, Table.ofBytes [1, 1, 0xed, 0x1c, 27, 9, 0, 3, 0, 0, 52] 4 = .ok table ∧
      (∃ template, table.get? ⟨3⟩ = some template ∧ template.id = ⟨3⟩) ∧
      Placed table.templates.toList 0 ⟨⟨0⟩, .os2, ⟨9⟩, 0, .bits16, [⟨3⟩], .empty⟩ ∧
      Placed table.templates.toList 2 ⟨⟨2⟩, .os2, ⟨9⟩, 1, .bits32, [⟨3⟩], .empty⟩ := by
  have accepted : Table.ofBytes [1, 1, 0xed, 0x1c, 27, 9, 0, 3, 0, 0, 52] 4 =
      .ok ⟨#[⟨⟨0⟩, .os2, ⟨9⟩, 0, .bits16, [⟨3⟩], .empty⟩,
        ⟨⟨1⟩, .os2, ⟨9⟩, 1, .bits32, [⟨3⟩], .empty⟩, ⟨⟨2⟩, .os2, ⟨9⟩, 1, .bits32, [⟨3⟩], .empty⟩,
        ⟨⟨3⟩, .reverse, ⟨9⟩, 1, .bits32, [⟨3⟩], .ofList [.reverseOperands]⟩]⟩ := by
    decide +kernel
  obtain ⟨numbers, placed⟩ := ofBytes_ok_placed accepted
  exact ⟨_, accepted, numbers ⟨3⟩ (by decide), placed 0 _ rfl, placed 2 _ rfl⟩

end InstructionTables.Template
