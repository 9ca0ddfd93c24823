import InstructionTables.Proofs.DispatchRenaming
import InstructionTables.Proofs.DispatchLookup

/-! A built table can be written again from its arrays alone. The slots are listed by a walk
that enters an array where it meets it for the first time, under its id as a name. Since arrays
are numbered in the order in which they are complete, reading the result numbers them as before
and builds the table again. -/
namespace InstructionTables.Dispatch

/-! ## Writing a table -/

namespace Table

variable {table : Table} {id : ArrayId} {met : List ArrayId}

/-- The positions of the arrays that have not been met. -/
def unmet (table : Table) (met : List ArrayId) : Finset Nat :=
  Finset.range table.arrays.size \ (met.map ArrayId.index).toFinset

/-- Meeting an array that is stored leaves fewer to be met. -/
theorem card_unmet_lt (new : id ∉ met) (stored : table.children? id = some slots) :
    (table.unmet (id :: met)).card < (table.unmet met).card := by
  obtain ⟨inside, -⟩ := Array.getElem?_eq_some_iff.mp stored
  have absent : id.index ∉ met.map ArrayId.index := by
    intro member
    obtain ⟨other, held, same⟩ := List.mem_map.mp member
    have equal : other = id := congrArg ArrayId.mk (UInt32.toNat_inj.mp same)
    exact new (equal ▸ held)
  rw [unmet, List.map_cons, List.toFinset_cons, Finset.sdiff_insert]
  apply Finset.card_erase_lt_of_mem
  rw [Finset.mem_sdiff, Finset.mem_range, List.mem_toFinset]
  exact ⟨inside, absent⟩

/-- The records that list slots from left to right, given the arrays that have been met. An
array is defined by the first slot that holds it, with its own slots right after it, and shared
by every other one. -/
def relist (table : Table) (met : List ArrayId) : List Node → List Record
  | [] => []
  | .handler id :: slots => .handler id.value :: table.relist met slots
  | .array id width :: slots =>
    if id ∈ met then .array 0 id.value.toUInt16 :: table.relist met slots
    else
      match _stored : table.children? id with
      | none => .array width id.value.toUInt16 :: table.relist met slots
      | some children =>
        .array width id.value.toUInt16 :: table.relist (id :: met) (children.toList ++ slots)
termination_by slots => ((table.unmet met).card, slots.length)
decreasing_by
  · exact Prod.Lex.right _ (Nat.lt_succ_self _)
  · exact Prod.Lex.right _ (Nat.lt_succ_self _)
  · exact Prod.Lex.right _ (Nat.lt_succ_self _)
  · exact Prod.Lex.left _ _ (card_unmet_lt ‹_› ‹_›)

theorem relist_shared (known : id ∈ met) :
    table.relist met (.array id width :: slots) =
      .array 0 id.value.toUInt16 :: table.relist met slots := by
  rw [relist, if_pos known]

theorem relist_defined (new : id ∉ met) (stored : table.children? id = some children) :
    table.relist met (.array id width :: slots) =
      .array width id.value.toUInt16 :: table.relist (id :: met) (children.toList ++ slots) := by
  rw [relist, if_neg new]
  split
  · rename_i absent
    rw [stored] at absent
    cases absent
  · rename_i found same
    cases same.symm.trans stored
    rfl

/-- The payload of a table whose arrays are called by their ids. -/
def payload (table : Table) : List UInt8 :=
  (Header.ofKind .decoder).payload
    ((table.relist [] table.roots.toList).flatMap Record.items)

end Table

namespace Forest

variable {forest : Forest}

/-- The id of the array with a name. -/
def ident (forest : Forest) (reference : UInt16) : ArrayId :=
  .ofIndex (forest.names.idxOf reference)

/-- The id of an array as a name. -/
def canonicalName (forest : Forest) (reference : UInt16) : UInt16 :=
  (forest.ident reference).value.toUInt16

private theorem idxOf_lt (distinct : forest.names.Nodup) (member : reference ∈ forest.names) :
    forest.names.idxOf reference < 2 ^ 16 := by
  have inside := List.idxOf_lt_length_of_mem member
  have bound := length_le_of_distinct distinct
  rw [names, List.length_map] at inside
  exact lt_of_lt_of_le inside bound

/-- Ids are distinct even as names, since there are no more arrays than names. -/
theorem canonicalName_separates (distinct : forest.names.Nodup) :
    Separates forest.canonicalName forest.names := by
  intro first firstMember second secondMember same
  have firstBound := idxOf_lt distinct firstMember
  have secondBound := idxOf_lt distinct secondMember
  apply (List.idxOf_inj firstMember).mp
  have numbers := congrArg UInt16.toNat same
  simp only [canonicalName, ident, ArrayId.ofIndex, UInt32.toNat_toUInt16,
    UInt32.toNat_ofNat'] at numbers
  omega

theorem ident_inj (distinct : forest.names.Nodup) (first : reference ∈ forest.names)
    (second : other ∈ forest.names) (same : forest.ident reference = forest.ident other) :
    reference = other :=
  canonicalName_separates distinct _ first _ second
    (congrArg (fun id : ArrayId => id.value.toUInt16) same)

/-- The node of an array has the id of its name, and its slots are stored there. -/
theorem node_eq_ident (invalidHandler : HandlerId) (distinct : forest.names.Nodup)
    (member : (reference, slots) ∈ forest.arrays) :
    node forest.arrays reference =
        .array (forest.ident reference) (UInt32.ofNat slots.width) ∧
      (forest.table invalidHandler).children? (forest.ident reference) =
        some (slots.nodes forest.arrays).toArray := by
  obtain ⟨position, found⟩ := List.mem_iff_getElem?.mp member
  have nodeEq := (node_of_getElem? distinct found).2
  have identEq : forest.ident reference = .ofIndex position := (Node.array.inj nodeEq).1
  rw [identEq]
  exact ⟨nodeEq, children?_of_getElem? invalidHandler distinct found⟩

/-- Listing the slots of a part of a forest gives the records of that part under the ids as
names, and then all of its arrays have been met. -/
theorem relist_nodes (invalidHandler : HandlerId) (distinct : forest.names.Nodup)
    {slots : Forest} (included : slots.arrays ⊆ forest.arrays) (own : slots.names.Nodup)
    (shares : slots.Scoped known) (knownMet : ∀ name ∈ known, forest.ident name ∈ met)
    (unmet : ∀ name ∈ slots.names, forest.ident name ∉ met) (others : List Node) :
    ∃ later, (∀ id, id ∈ later ↔ id ∈ met ∨ id ∈ slots.names.map forest.ident) ∧
      (forest.table invalidHandler).relist met (slots.nodes forest.arrays ++ others) =
        (slots.rename forest.canonicalName).records ++
          (forest.table invalidHandler).relist later others := by
  induction slots generalizing known met others with
  | nil => exact ⟨met, by simp [names, arrays], rfl⟩
  | handler id rest ih =>
    obtain ⟨later, laterMet, listed⟩ := ih included own shares knownMet unmet others
    refine ⟨later, laterMet, ?_⟩
    rw [nodes, List.cons_append, Table.relist, listed]
    rfl
  | share name rest ih =>
    obtain ⟨later, laterMet, listed⟩ := ih included own shares.2 knownMet unmet others
    refine ⟨later, laterMet, ?_⟩
    obtain ⟨width, nodeEq⟩ : ∃ width, node forest.arrays name = .array (forest.ident name) width :=
      ⟨_, rfl⟩
    rw [nodes, List.cons_append, nodeEq, Table.relist_shared (knownMet name shares.1), listed]
    rfl
  | define name children rest inner ih =>
    rw [arrays_define, List.append_subset, List.append_subset] at included
    obtain ⟨⟨childrenIncluded, ownIncluded⟩, restIncluded⟩ := included
    rw [names_define] at own unmet
    obtain ⟨childrenOwn, restOwn, apart⟩ := List.nodup_append.mp own
    obtain ⟨fresh, restOwn⟩ := List.nodup_cons.mp restOwn
    have member : (name, children) ∈ forest.arrays := ownIncluded List.mem_cons_self
    have named : name ∈ forest.names := List.mem_map_of_mem member
    have childrenNamed : children.names ⊆ forest.names := List.map_subset _ childrenIncluded
    have restNamed : rest.names ⊆ forest.names := List.map_subset _ restIncluded
    obtain ⟨nodeEq, stored⟩ := node_eq_ident invalidHandler distinct member
    have new : forest.ident name ∉ met := unmet name (by simp)
    -- Inside the array it has been met itself, although it is not complete there.
    have childrenKnown : ∀ other ∈ known, forest.ident other ∈ forest.ident name :: met :=
      fun other held => List.mem_cons_of_mem _ (knownMet other held)
    have childrenUnmet : ∀ other ∈ children.names,
        forest.ident other ∉ forest.ident name :: met := by
      intro other held again
      rcases List.mem_cons.mp again with same | before
      · have equal := ident_inj distinct (childrenNamed held) named same
        exact apart other held name List.mem_cons_self equal
      · exact unmet other (List.mem_append_left _ held) before
    obtain ⟨middle, middleMet, childrenListed⟩ := inner childrenIncluded childrenOwn shares.1
      childrenKnown childrenUnmet (rest.nodes forest.arrays ++ others)
    have restKnown : ∀ other ∈ known ++ children.names ++ [name], forest.ident other ∈ middle := by
      intro other held
      rw [middleMet, List.mem_cons]
      rcases List.mem_append.mp held with earlier | last
      · rcases List.mem_append.mp earlier with before | inside
        · exact Or.inl (Or.inr (knownMet other before))
        · exact Or.inr (List.mem_map_of_mem inside)
      · rw [List.mem_singleton.mp last]
        exact Or.inl (Or.inl rfl)
    have restUnmet : ∀ other ∈ rest.names, forest.ident other ∉ middle := by
      intro other held again
      rw [middleMet, List.mem_cons] at again
      rcases again with (same | before) | inside
      · rw [ident_inj distinct (restNamed held) named same] at held
        exact fresh held
      · exact unmet other (List.mem_append_right _ (List.mem_cons_of_mem _ held)) before
      · obtain ⟨child, childHeld, same⟩ := List.mem_map.mp inside
        have equal := ident_inj distinct (childrenNamed childHeld) (restNamed held) same
        exact apart child childHeld other (List.mem_cons_of_mem _ held) equal
    obtain ⟨later, laterMet, restListed⟩ := ih restIncluded restOwn shares.2 restKnown restUnmet
      others
    refine ⟨later, ?_, ?_⟩
    · intro id
      simp only [laterMet, middleMet, names_define, List.mem_cons, List.map_append, List.map_cons,
        List.mem_append]
      tauto
    · rw [nodes, List.cons_append, nodeEq, Table.relist_defined new stored, childrenListed,
        restListed]
      simp [rename, records, canonicalName]

/-- Writing the table of a forest again gives the payload of the forest under the ids of its
arrays as names. -/
theorem payload_table (invalidHandler : HandlerId) (distinct : forest.names.Nodup)
    (shares : forest.Scoped []) :
    (forest.table invalidHandler).payload = (forest.rename forest.canonicalName).payload := by
  obtain ⟨met, -, listed⟩ := relist_nodes invalidHandler distinct (List.Subset.refl _) distinct
    shares nofun (fun _ _ => List.not_mem_nil) []
  have nothing : (forest.table invalidHandler).relist met [] = [] := by
    rw [Table.relist]
  rw [List.append_nil, nothing, List.append_nil] at listed
  rw [Table.payload, payload, items, ← listed]
  rfl

end Forest

/-- Every table that is built can be written from its arrays alone, and what is written is read
as the same table with the same numbers for its arrays. The numbers fit a name. -/
theorem ofBytes_ok_payload {config : Config}
    (accepted : Table.ofBytes payload config = .ok table) :
    table.arrays.size ≤ 2 ^ 16 ∧ Table.ofBytes table.payload config = .ok table := by
  obtain ⟨known, forest, body, -, -, width, fits, rfl⟩ := buildWith_ok_iff.mp accepted
  have separates := Forest.canonicalName_separates fits.distinct
  constructor
  · rw [Forest.table, List.size_toArray, List.length_map]
    exact Forest.length_le_of_distinct fits.distinct
  · rw [Forest.payload_table _ fits.distinct fits.shares]
    refine buildWith_ok_iff.mpr ⟨known, forest.rename forest.canonicalName, _, rfl,
      Item.spells_encodeAll _, ?_, fits.rename separates, ?_⟩
    · rw [Forest.width_rename, width]
    · exact (Forest.table_rename _ fits.distinct fits.shares separates).symm

/-- The names of a payload are replaced by ids, and its sizes get their shortest form. -/
theorem ofBytes_ok_payload_padded : ∃ table : Table,
    Table.ofBytes [0x01, 0x00, 0xed, 0x1c,
        0x01, 0x81, 0x00, 0x34, 0x12, 0x01, 0x01, 0x40, 0x00, 0x00, 0x02, 0x00,
        0x01, 0x80, 0x00, 0x34, 0x12] ⟨2, 3, {}⟩ = .ok table ∧
      table.payload = [0x01, 0x00, 0xed, 0x1c,
        0x01, 0x01, 0x01, 0x00, 0x01, 0x01, 0x00, 0x00, 0x00, 0x02, 0x00,
        0x01, 0x00, 0x01, 0x00] ∧
      Table.ofBytes table.payload ⟨2, 3, {}⟩ = .ok table := by
  have accepted : Table.ofBytes [0x01, 0x00, 0xed, 0x1c,
      0x01, 0x81, 0x00, 0x34, 0x12, 0x01, 0x01, 0x40, 0x00, 0x00, 0x02, 0x00,
      0x01, 0x80, 0x00, 0x34, 0x12] ⟨2, 3, {}⟩ =
        .ok ⟨#[.array ⟨1⟩ 1, .array ⟨1⟩ 1], #[#[.handler ⟨2⟩], #[.array ⟨0⟩ 1]], {}⟩ := by
    decide +kernel
  refine ⟨_, accepted, ?_, (ofBytes_ok_payload accepted).2⟩
  cbv

end InstructionTables.Dispatch
