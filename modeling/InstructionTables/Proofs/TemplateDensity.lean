import InstructionTables.Proofs.TemplateFolds

/-! How much a template payload can hold. A record of one byte repeats a template of up to four
operands, and others emit many templates at once, but none of them emits more for each of its bytes
than a record of pseudo-operations that stores the largest count there is in a single byte. So the
size of a payload bounds the size of its table, whatever number of templates is asked for. -/
namespace InstructionTables.Template

/-- The number of operands that templates refer to in all. -/
def operandTotal (templates : List Template) : Nat :=
  (templates.map fun template => template.operands.length).sum

/-- The record emits as much as its bytes can: 32 templates of two operands, with a count that is
stored in one byte behind the other seven. -/
def Record.Densest : Record → List UInt8 → Prop
  | previous, _ | reverse, _ => False
  | family described, piece => described.kind = .pops ∧ described.count = 32 ∧
    ∃ fields : List UInt8, fields.length = 7 ∧ piece = fields ++ [32]

/-- A weight that templates have by the number of their operands, and the most of it that there is
for each byte of a payload. A repetition weighs less than its byte allows, and so do up to four
templates of one record, while 32 templates of two operands in eight bytes weigh just as much. -/
structure Weight (weight : Nat → Nat) (rate : Nat) : Prop where
  fold : ∀ operands ≤ 4, weight operands < rate
  few : ∀ operands ≤ 4, 4 * weight operands < rate * (3 + 2 * operands)
  many : 32 * weight 2 = rate * 8

theorem weight_templates : Weight (fun _ => 1) 4 where
  fold operands few := by omega
  few operands few := by omega
  many := rfl

theorem weight_operands : Weight (fun operands => operands) 8 where
  fold operands few := by omega
  few operands few := by omega
  many := rfl

/-! ## Families -/

namespace Kind

theorem operands_le : ∀ kind : Kind, kind.shape.operands ≤ 4 :=
  of_listed (by decide)

theorem emissionCount?_le_four : ∀ kind : Kind, ∀ count ∈ kind.emissionCount?, count ≤ 4 :=
  of_listed (by decide)

end Kind

namespace Family

variable {family : Family} {piece : List UInt8} {weight : Nat → Nat} {rate : Nat}

theorem WellFormed.operands_le (wellFormed : family.WellFormed) : family.operands.length ≤ 4 :=
  wellFormed.operands ▸ family.kind.operands_le

theorem expansion_operands (wellFormed : family.WellFormed) :
    ∀ template ∈ family.expansion, template.operands = family.operands := by
  rw [expansion_eq wellFormed]
  intro template member
  obtain ⟨sibling, -, rfl⟩ := List.mem_map.mp member
  rfl

/-- All templates of a family weigh the same. -/
theorem expansion_weight (wellFormed : family.WellFormed) :
    (family.expansion.map fun template => weight template.operands.length).sum =
      family.count * weight family.operands.length := by
  have alike : ∀ number ∈ family.expansion.map fun template => weight template.operands.length,
      number = weight family.operands.length := by
    intro number member
    obtain ⟨template, inside, rfl⟩ := List.mem_map.mp member
    rw [expansion_operands wellFormed template inside]
  rw [List.eq_replicate_of_mem alike, List.sum_replicate_nat, List.length_map,
    expansion_length wellFormed]

/-- A family is stored as its tag, mnemonic and operands, and then a width or a count. -/
theorem exists_parts (listing : Record.Listing (.family family) piece) :
    ∃ fields width count : List UInt8, piece = fields ++ width ++ count ∧
      fields.length = 3 + 2 * family.operands.length ∧
      (¬ family.kind.shape.hasWidth → width = []) ∧
      (family.kind.emissionCount? = none →
        Varint.Spelling (UInt32.ofNat family.count) count) := by
  cases listing with
  | @family _ width count stored counted =>
    refine ⟨_, width, count, rfl, ?_, ?_, ?_⟩
    · simp only [List.length_append, List.length_cons, List.length_nil, List.length_flatMap,
        List.map_const', List.sum_replicate_nat]
      omega
    · intro none
      rwa [if_neg none] at stored
    · intro none
      rwa [if_pos (none ▸ rfl)] at counted

theorem fields_le_listing (listing : Record.Listing (.family family) piece) :
    3 + 2 * family.operands.length ≤ piece.length := by
  obtain ⟨fields, width, count, rfl, size, -, -⟩ := exists_parts listing
  rw [List.length_append, List.length_append, size]
  omega

/-- A record that stores its count takes eight bytes at least, and with the largest count it takes
no more exactly if it is as dense as a record can be. -/
theorem pops_listing (wellFormed : family.WellFormed) (pops : family.kind = .pops)
    (listing : Record.Listing (.family family) piece) :
    family.operands.length = 2 ∧ 8 ≤ piece.length ∧
      (Record.Densest (.family family) piece ↔ family.count = 32 ∧ piece.length = 8) := by
  have two : family.operands.length = 2 := by
    rw [wellFormed.operands, pops]
    rfl
  obtain ⟨fields, width, count, rfl, size, noWidth, counted⟩ := exists_parts listing
  rw [pops] at noWidth counted
  obtain rfl := noWidth (by decide)
  have spelled := counted rfl
  have positive := spelled.length_pos
  rw [two] at size
  rw [List.append_nil, List.length_append, size]
  refine ⟨two, by omega, ?_⟩
  constructor
  · rintro ⟨-, most, first, length, same⟩
    have lengths := congrArg List.length same
    rw [List.length_append, List.length_append, size, length] at lengths
    exact ⟨most, lengths⟩
  · rintro ⟨most, lengths⟩
    obtain ⟨byte, rfl⟩ := List.length_eq_one_iff.mp (Nat.add_left_cancel lengths : count.length = 1)
    have stored : byte = 32 := by
      obtain ⟨groups, -⟩ := Varint.spelling_iff.mp spelled
      rw [most] at groups
      obtain ⟨-, -, same⟩ | ⟨-, high, none, -⟩ := Varint.groups_cons_iff.mp groups
      · exact UInt8.toNat_inj.mp same.symm
      · cases none
    exact ⟨pops, most, fields, size, stored ▸ rfl⟩

variable {weight : Nat → Nat} {rate : Nat}

/-- A family weighs no more than its bytes allow. -/
theorem expansion_bound (weighs : Weight weight rate) (wellFormed : family.WellFormed)
    (listing : Record.Listing (.family family) piece) :
    (family.expansion.map fun template => weight template.operands.length).sum ≤
        rate * piece.length ∧
      ((family.expansion.map fun template => weight template.operands.length).sum =
        rate * piece.length ↔ Record.Densest (.family family) piece) := by
  rw [expansion_weight wellFormed]
  by_cases pops : family.kind = .pops
  · obtain ⟨two, length, densest⟩ := pops_listing wellFormed pops listing
    have most := wellFormed.count_le
    have many := weighs.many
    have positive : 0 < rate := Nat.zero_lt_of_lt (weighs.fold 0 (Nat.zero_le 4))
    have heavy : 0 < weight 2 := by omega
    have counted := Nat.mul_le_mul_right (weight 2) most
    have stored := Nat.mul_le_mul_left rate length
    rw [two, densest]
    refine ⟨counted.trans (many.le.trans stored), ?_⟩
    constructor
    · intro same
      have full : family.count * weight 2 = 32 * weight 2 := by omega
      have short : rate * piece.length = rate * 8 := by omega
      exact ⟨Nat.eq_of_mul_eq_mul_right heavy full, Nat.eq_of_mul_eq_mul_left positive short⟩
    · rintro ⟨full, short⟩
      rw [full, short, many]
  · obtain ⟨count, emits⟩ := Option.ne_none_iff_exists'.mp
      (mt family.kind.emissionCount?_eq_none_iff.mp pops)
    have counted := wellFormed.count
    rw [emits] at counted
    have few : family.count ≤ 4 := counted ▸ family.kind.emissionCount?_le_four count emits
    have light : family.count * weight family.operands.length < rate * piece.length := by
      calc family.count * weight family.operands.length
        _ ≤ 4 * weight family.operands.length := Nat.mul_le_mul_right _ few
        _ < rate * (3 + 2 * family.operands.length) := weighs.few _ wellFormed.operands_le
        _ ≤ rate * piece.length := Nat.mul_le_mul_left rate (fields_le_listing listing)
    exact ⟨light.le, fun same => absurd same light.ne, fun densest => absurd densest.1 pops⟩

end Family

/-! ## Records -/

section Records

variable {weight : Nat → Nat} {rate : Nat} {current : Option Template}

theorem Record.expansion_few {record : Record} (wellFormed : record.WellFormed)
    (few : ∀ template ∈ current, template.operands.length ≤ 4) :
    ∀ template ∈ record.expansion current, template.operands.length ≤ 4 := by
  cases record with
  | previous => exact fun template member => few template (Option.mem_toList.mp member)
  | reverse =>
    intro template member
    obtain ⟨base, inside, rfl⟩ := List.mem_map.mp member
    rw [List.length_reverse]
    exact few base (Option.mem_toList.mp inside)
  | family described =>
    intro template member
    rw [Family.expansion_operands wellFormed template member]
    exact Family.WellFormed.operands_le wellFormed

theorem Record.expansion_fold_light (weighs : Weight weight rate) {record : Record}
    (folds : record.IsFold) (few : ∀ template ∈ current, template.operands.length ≤ 4) :
    ((record.expansion current).map fun template => weight template.operands.length).sum <
      rate := by
  cases current with
  | none =>
    have positive := Nat.zero_lt_of_lt (weighs.fold 0 (Nat.zero_le 4))
    rcases folds with rfl | rfl
    · exact positive
    · exact positive
  | some base =>
    have light := weighs.fold base.operands.length (few base rfl)
    rcases folds with rfl | rfl
    · simpa [expansion] using light
    · simpa [expansion] using light

/-- A record weighs no more than its bytes allow, and as much only where it is as dense as a record
can be. -/
theorem Record.expansion_bound (weighs : Weight weight rate) {record : Record}
    (wellFormed : record.WellFormed) (listing : record.Listing piece)
    (few : ∀ template ∈ current, template.operands.length ≤ 4) :
    ((record.expansion current).map fun template => weight template.operands.length).sum ≤
        rate * piece.length ∧
      (((record.expansion current).map fun template => weight template.operands.length).sum =
        rate * piece.length ↔ record.Densest piece) := by
  cases listing with
  | previous =>
    have light := expansion_fold_light weighs (Or.inl rfl) few
    rw [List.length_singleton, Nat.mul_one]
    exact ⟨light.le, fun same => absurd same light.ne, False.elim⟩
  | reverse =>
    have light := expansion_fold_light weighs (Or.inr rfl) few
    rw [List.length_singleton, Nat.mul_one]
    exact ⟨light.le, fun same => absurd same light.ne, False.elim⟩
  | family width count => exact Family.expansion_bound weighs wellFormed (.family width count)

/-- What records emit weighs no more than their bytes allow, and as much only where each of them is
as dense as a record can be. -/
theorem expansions_bound (weighs : Weight weight rate)
    (listings : List.Forall₂ Record.Listing records pieces)
    (wellFormed : ∀ record ∈ records, record.WellFormed)
    (few : ∀ template ∈ current, template.operands.length ≤ 4) :
    (∀ template ∈ expansions current records, template.operands.length ≤ 4) ∧
    ((expansions current records).map fun template => weight template.operands.length).sum ≤
        rate * pieces.flatten.length ∧
      (((expansions current records).map fun template => weight template.operands.length).sum =
        rate * pieces.flatten.length ↔ List.Forall₂ Record.Densest records pieces) := by
  induction listings generalizing current with
  | nil => simp [expansions]
  | @cons record piece records pieces listing listings ih =>
    obtain ⟨agrees, others⟩ := List.forall_mem_cons.mp wellFormed
    have here := Record.expansion_few agrees few
    have bound := Record.expansion_bound weighs agrees listing few
    have last : ∀ template ∈ (record.expansion current).getLast?.or current,
        template.operands.length ≤ 4 := by
      intro template member
      obtain last | ⟨-, kept⟩ := Option.or_eq_some_iff.mp member
      · exact here template (List.mem_of_getLast? last)
      · exact few template kept
    have later := ih others last
    rw [expansions, List.map_append, List.sum_append, List.flatten_cons, List.length_append,
      Nat.mul_add, List.forall₂_cons, ← bound.2, ← later.2.2]
    refine ⟨List.forall_mem_append.mpr ⟨here, later.1⟩, Nat.add_le_add bound.1 later.2.1, ?_⟩
    have first := bound.1
    have second := later.2.1
    omega

end Records

/-! ## Tables -/

theorem numbered_operands (templates : List Template) :
    (numbered templates).map Template.operands = templates.map Template.operands := by
  apply List.ext_getElem?
  intro position
  simp only [numbered, List.getElem?_map, List.getElem?_mapIdx, Option.map_map, Function.comp_def]

theorem exists_listedAs (accepted : Table.ofBytes payload instructionCount = .ok table) :
    ∃ records pieces, ListedAs payload records pieces := by
  obtain ⟨records, body, payloadEq, spells, fills, -⟩ := ofBytes_ok_iff.mp accepted
  exact ⟨records, lists_iff.mpr ⟨body, payloadEq, spells, fills.wellFormed⟩⟩

/-- The templates of a table weigh no more than the bytes behind the header of its payload allow. -/
theorem ListedAs.bound {weight : Nat → Nat} {rate : Nat} (weighs : Weight weight rate)
    (listed : ListedAs payload records pieces)
    (accepted : Table.ofBytes payload instructionCount = .ok table) :
    (∀ template ∈ table.templates.toList, template.operands.length ≤ 4) ∧
    (table.templates.toList.map fun template => weight template.operands.length).sum ≤
        rate * (payload.length - 4) ∧
      ((table.templates.toList.map fun template => weight template.operands.length).sum =
        rate * (payload.length - 4) ↔ List.Forall₂ Record.Densest records pieces) := by
  have lists : Lists payload records := ⟨pieces, listed⟩
  have templates := (lists.fills accepted).2
  have behind : payload.length - 4 = pieces.flatten.length := by
    rw [listed.payload_eq, List.length_append, Header.length_toBytes, Header.size,
      Nat.add_sub_cancel_left]
  have nothing : ∀ template ∈ (none : Option Template), template.operands.length ≤ 4 :=
    fun template member => absurd member (Option.not_mem_none template)
  have bound := expansions_bound weighs listed.listings listed.wellFormed nothing
  have operands : table.templates.toList.map Template.operands =
      (expansions none records).map Template.operands := by
    rw [templates, numbered_operands]
  have weights : table.templates.toList.map (fun template => weight template.operands.length) =
      (expansions none records).map fun template => weight template.operands.length := by
    simpa only [List.map_map, Function.comp_def] using
      congrArg (List.map fun operands => weight operands.length) operands
  have few : ∀ operands ∈ table.templates.toList.map Template.operands, operands.length ≤ 4 := by
    rw [operands]
    exact List.forall_mem_map.mpr bound.1
  rw [behind, weights]
  exact ⟨fun template member => few _ (List.mem_map_of_mem member), bound.2⟩

/-- A table has no more than four templates for each byte of its payload behind the header, no more
than eight operands for each of these bytes, and no template of more than four operands, however
many templates were asked for. Either number is as large as that exactly if every record of the
payload is a record of pseudo-operations that stores a count of 32 in one byte. -/
theorem ofBytes_ok_density (accepted : Table.ofBytes payload instructionCount = .ok table) :
    table.templates.size ≤ 4 * (payload.length - 4) ∧
    operandTotal table.templates.toList ≤ 8 * (payload.length - 4) ∧
    (∀ template ∈ table.templates, template.operands.length ≤ 4) ∧
    (∃ records pieces, ListedAs payload records pieces) ∧
    ∀ records pieces, ListedAs payload records pieces →
      (table.templates.size = 4 * (payload.length - 4) ↔
        List.Forall₂ Record.Densest records pieces) ∧
      (operandTotal table.templates.toList = 8 * (payload.length - 4) ↔
        List.Forall₂ Record.Densest records pieces) := by
  have size : table.templates.size = (table.templates.toList.map fun _ => 1).sum := by
    rw [List.map_const', List.sum_replicate_nat, Nat.mul_one, Array.length_toList]
  obtain ⟨records, pieces, listed⟩ := exists_listedAs accepted
  obtain ⟨few, templates, -⟩ := listed.bound weight_templates accepted
  obtain ⟨-, operands, -⟩ := listed.bound weight_operands accepted
  rw [size, operandTotal]
  refine ⟨templates, operands, ?_, ⟨records, pieces, listed⟩, ?_⟩
  · exact fun template member => few template (Array.mem_toList_iff.mpr member)
  intro records pieces listed
  exact ⟨(listed.bound weight_templates accepted).2.2, (listed.bound weight_operands accepted).2.2⟩

/-- One record of eight bytes fills a table with 32 templates, which refer to 64 operands. -/
theorem ofBytes_ok_density_pops :
    ∃ table, Table.ofBytes [1, 1, 0xed, 0x1c, 48, 9, 0, 1, 0, 2, 0, 32] 32 = .ok table ∧
      table.templates.size = 4 * 8 ∧ operandTotal table.templates.toList = 8 * 8 := by
  let record : Record := .family ⟨.pops, ⟨9⟩, [⟨1⟩, ⟨2⟩], .unmarked, 32⟩
  have wellFormed : ∀ listed ∈ [record], listed.WellFormed := by decide
  have listing : record.Listing [48, 9, 0, 1, 0, 2, 0, 32] :=
    @Record.Listing.family ⟨.pops, ⟨9⟩, [⟨1⟩, ⟨2⟩], .unmarked, 32⟩ [] [32] rfl
      (Varint.spelling_encode 32)
  have listed : ListedAs [1, 1, 0xed, 0x1c, 48, 9, 0, 1, 0, 2, 0, 32] [record]
      [[48, 9, 0, 1, 0, 2, 0, 32]] :=
    ⟨rfl, List.Forall₂.cons listing List.Forall₂.nil, wellFormed⟩
  have accepted : Table.ofBytes [1, 1, 0xed, 0x1c, 48, 9, 0, 1, 0, 2, 0, 32] 32 =
      .ok ⟨(numbered (expansions none [record])).toArray⟩ :=
    ofBytes_ok_iff.mpr ⟨[record], _, rfl, Item.spells_encodeAll _,
      ⟨wellFormed, fun _ => by decide, rfl⟩, rfl⟩
  have densest : List.Forall₂ Record.Densest [record] [[48, 9, 0, 1, 0, 2, 0, 32]] :=
    List.Forall₂.cons ⟨rfl, rfl, [48, 9, 0, 1, 0, 2, 0], rfl, rfl⟩ List.Forall₂.nil
  obtain ⟨-, -, -, -, largest⟩ := ofBytes_ok_density accepted
  obtain ⟨size, operands⟩ := largest _ _ listed
  exact ⟨_, accepted, size.mpr densest, operands.mpr densest⟩

end InstructionTables.Template
