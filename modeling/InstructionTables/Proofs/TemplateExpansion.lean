import InstructionTables.Proofs.TemplateRecords
import InstructionTables.Template.Build

/-! What records emit, without a payload and without a table. The expansion of a record
depends on the template before it only where the record repeats that template, and ids are
given at the end, by position. -/
namespace InstructionTables.Template

/-! ## Families -/

namespace Family

/-- The template of one variant, before it has an id. -/
def variant (family : Family) (position : Nat) (size : OperandSize) : Template where
  id := {}
  kind := family.kind
  mnemonic := family.mnemonic
  variant := UInt8.ofNat position
  size
  operands := family.operands
  flags := family.kind.shape.flags

/-- The templates that a family emits: one for each size, one for each of a number of variants,
or just one. -/
def expansion (family : Family) : List Template :=
  match family.kind.shape.emission with
  | .previous | .reverse => []
  | .one => [family.variant 0 family.size]
  | .sizes listed => listed.mapIdx family.variant
  | .conditionCodes count | .pseudoOps count =>
    (List.range count).map fun position => family.variant position family.size
  | .countedPseudoOps =>
    (List.range family.count).map fun position => family.variant position family.size

variable {family : Family}

private theorem variants_eq (count : Nat) (size : OperandSize) :
    ((List.range count).map fun position => family.variant position size) =
      ((List.range count).map fun position => (UInt8.ofNat position, size)).map
        fun (variant, size) => { family.variant 0 size with variant } := by
  rw [List.map_map]
  rfl

/-- The variants that are written into a table are those of the expansion. -/
theorem expansion_eq (wellFormed : family.WellFormed) : family.expansion =
    family.siblings.map fun (variant, size) => { family.variant 0 size with variant } := by
  have described := wellFormed.described
  have counted := wellFormed.count
  rw [Kind.emissionCount?] at counted
  rw [expansion, siblings]
  cases emission : family.kind.shape.emission with
  | previous | reverse =>
    rw [emission] at described
    cases described
  | one =>
    rw [emission] at counted
    rw [show family.count = 1 from counted]
    rfl
  | sizes listed =>
    apply List.ext_getElem?
    intro position
    simp only [List.getElem?_mapIdx, List.getElem?_map, Option.map_map]
    rfl
  | conditionCodes count | pseudoOps count =>
    rw [emission] at counted
    rw [show family.count = count from counted]
    exact variants_eq count family.size
  | countedPseudoOps => exact variants_eq family.count family.size

/-- The templates of a family have ids from the first one on. -/
theorem templates_eq (wellFormed : family.WellFormed) (first : Nat) : family.templates first =
    family.expansion.mapIdx fun position template =>
      { template with id := .ofIndex (position + first) } := by
  rw [templates, expansion_eq wellFormed]
  apply List.ext_getElem?
  intro position
  simp only [List.getElem?_mapIdx, List.getElem?_map, Option.map_map, Nat.add_comm first]
  rfl

theorem expansion_length (wellFormed : family.WellFormed) :
    family.expansion.length = family.count := by
  have counted := wellFormed.count
  rw [Kind.emissionCount?] at counted
  rw [expansion_eq wellFormed, List.length_map, siblings]
  split
  · rename_i listed emission
    rw [emission] at counted
    rw [List.length_mapIdx]
    exact counted.symm
  · rw [List.length_map, List.length_range]

end Family

/-! ## Records -/

namespace Record

/-- The number of templates that a record emits. -/
def emissionCount : Record → Nat
  | previous | reverse => 1
  | family described => described.count

/-- The templates that a record emits after the current one. -/
def expansion (current : Option Template) : Record → List Template
  | previous => current.toList
  | reverse => current.toList.map fun template =>
    { template with
      kind := .reverse
      operands := template.operands.reverse
      flags := template.flags.toggle .reverseOperands }
  | family described => described.expansion

end Record

/-- The templates that records emit in order, where the last template emitted is the current
one of the next record. -/
def expansions (current : Option Template) : List Record → List Template
  | [] => []
  | record :: records =>
    let emitted := record.expansion current
    emitted ++ expansions (emitted.getLast?.or current) records

/-- Records that follow others go on from the last template of those. -/
theorem expansions_append (current : Option Template) (first second : List Record) :
    expansions current (first ++ second) = expansions current first ++
      expansions ((expansions current first).getLast?.or current) second := by
  induction first generalizing current with
  | nil => rfl
  | cons record records ih =>
    rw [List.cons_append, expansions, expansions, ih, List.getLast?_append, Option.or_assoc,
      List.append_assoc]

/-- Templates with the ids of their positions. -/
def numbered (templates : List Template) : List Template :=
  templates.mapIdx fun position template => { template with id := .ofIndex position }

theorem numbered_length (templates : List Template) :
    (numbered templates).length = templates.length :=
  List.length_mapIdx

theorem numbered_getElem?_iff {templates : List Template} {template : Template} :
    (numbered templates)[position]? = some template ↔
      ∃ unnumbered : Template, templates[position]? = some unnumbered ∧
        template = { unnumbered with id := .ofIndex position } := by
  rw [numbered, List.getElem?_mapIdx, Option.map_eq_some_iff]
  simp only [eq_comm]

/-- Templates that follow others have the ids after theirs. -/
theorem numbered_append (done more : List Template) : numbered (done ++ more) =
    numbered done ++ more.mapIdx fun position template =>
      { template with id := .ofIndex (position + done.length) } :=
  List.mapIdx_append

/-- Records that fill a table of `limit` templates when `done` have been emitted. Each agrees
with its kind, the first one does not repeat a template where there is none, and they emit one
for every id that is left. -/
structure Fills (limit : Nat) (done : List Template) (records : List Record) : Prop where
  wellFormed : ∀ record ∈ records, record.WellFormed
  opening : done = [] → records.head? ≠ some .previous ∧ records.head? ≠ some .reverse
  total : done.length + (records.map Record.emissionCount).sum = limit

/-- The payload of a table that these records fill. -/
def payloadOf (records : List Record) : List UInt8 :=
  (Header.ofKind .formatter).payload (records.flatMap Record.items)

end InstructionTables.Template
