import InstructionTables.Proofs.DispatchLookup

/-! How many fields a walk may need. Reading a payload limits how deep its definitions are
nested, but an array that is shared brings its own arrays along wherever it is used. The limit
on the fields of a walk therefore holds exactly for the payloads that are nested no deeper when
every shared array is repeated in place, and not for all that are accepted. -/
namespace InstructionTables.Dispatch

/-! ## Chains -/

/-- Arrays that a walk from the given slots can pass through one after the other. -/
inductive Table.Chain (table : Table) : Array Node → List ArrayId → Prop where
  | stop {slots : Array Node} : Chain table slots []
  | descend {slots children : Array Node} {id : ArrayId} {width : UInt32} {ids : List ArrayId}
      (field : Nat) : slots[field]? = some (.array id width) →
      table.children? id = some children → Chain table children ids →
      Chain table slots (id :: ids)

/-- Where no chain is longer than a number of arrays, a walk looks at one field more at most. -/
theorem Table.walk?_take {table : Table}
    (short : ∀ ids, table.Chain slots ids → ids.length ≤ levels) (fields : List Nat) :
    table.walk? slots (fields.take (levels + 1)) = table.walk? slots fields := by
  induction fields generalizing slots levels with
  | nil => rfl
  | cons field fields ih =>
    rw [List.take_succ_cons, Table.walk?, Table.walk?]
    cases held : slots[field]? with
    | none => rfl
    | some node =>
      cases node with
      | handler id => rfl
      | array id width =>
        cases stored : table.children? id with
        | none => simp only [stored]
        | some children =>
          have positive : 1 ≤ levels := short [id] (.descend field held stored .stop)
          obtain ⟨below, rfl⟩ := Nat.exists_eq_add_of_le' positive
          simp only [stored]
          apply ih
          intro ids chain
          exact Nat.le_of_succ_le_succ (short (id :: ids) (.descend field held stored chain))

/-! ## Trees -/

mutual

/-- The most arrays inside one another, from this slot on. -/
def Tree.depth : Tree → Nat
  | .handler _ => 0
  | .array slots => deepest slots + 1

/-- The most arrays inside one another, from any of these slots on. -/
def Tree.deepest : List Tree → Nat
  | [] => 0
  | tree :: trees => max tree.depth (deepest trees)

end

/-- Slots are nested deeper than a number exactly when one of them is an array whose slots are
nested as deep as that. -/
theorem Tree.lt_deepest_iff {trees : List Tree} :
    levels < Tree.deepest trees ↔
      ∃ (field : Nat) (children : List Tree), trees[field]? = some (.array children) ∧
        levels ≤ Tree.deepest children := by
  induction trees with
  | nil => simp [Tree.deepest]
  | cons tree trees ih =>
    rw [Tree.deepest, lt_max_iff, ih]
    constructor
    · rintro (first | ⟨field, children, held, deep⟩)
      · cases tree with
        | handler id => cases first
        | array children => exact ⟨0, children, rfl, Nat.le_of_lt_succ first⟩
      · exact ⟨field + 1, children, held, deep⟩
    · rintro ⟨field, children, held, deep⟩
      cases field with
      | zero =>
        cases held
        exact Or.inl (Nat.lt_succ_of_le deep)
      | succ field => exact Or.inr ⟨field, children, held, deep⟩

namespace Forest

variable {forest : Forest}

/-- There are chains of a length exactly where the trees of the slots are as deep. -/
theorem exists_chain_iff (invalidHandler : HandlerId) (distinct : forest.names.Nodup)
    {slots : Forest} (included : slots.arrays ⊆ forest.arrays)
    (unfolds : Unfolds forest.arrays slots trees) :
    (∃ ids, (forest.table invalidHandler).Chain (slots.nodes forest.arrays).toArray ids ∧
      ids.length = length) ↔ length ≤ Tree.deepest trees := by
  -- One array of a chain is one level of the trees, whether the array is defined here or shared.
  induction length generalizing slots trees with
  | zero => exact iff_of_true ⟨[], .stop, rfl⟩ (Nat.zero_le _)
  | succ length ih =>
    have agree := getElem?_agrees (nodes_agree unfolds included)
    rw [Nat.succ_le_iff, Tree.lt_deepest_iff]
    constructor
    · rintro ⟨_, chain, same⟩
      cases chain with
      | stop => cases same
      | @descend _ _ id _ ids field held stored chain =>
        rw [List.getElem?_toArray] at held
        obtain ⟨absent, -⟩ | ⟨slot, tree, slotEq, treeEq, agrees⟩ := agree field
        · rw [absent] at held
          cases held
        · rw [slotEq, Option.some.injEq] at held
          cases agrees with
          | handler id => cases held
          | array member below =>
            obtain ⟨_, _, nodeEq, storedEq⟩ := children?_of_mem invalidHandler distinct member
            cases nodeEq.symm.trans held
            cases storedEq.symm.trans stored
            refine ⟨field, _, treeEq, (ih (arrays_subset_of_mem member) below).mp ?_⟩
            exact ⟨ids, chain, Nat.succ.inj same⟩
    · rintro ⟨field, children, treeEq, deep⟩
      obtain ⟨-, beyond⟩ | ⟨slot, tree, slotEq, found, agrees⟩ := agree field
      · rw [beyond] at treeEq
        cases treeEq
      · cases found.symm.trans treeEq
        cases agrees with
        | array member below =>
          obtain ⟨id, width, nodeEq, stored⟩ := children?_of_mem invalidHandler distinct member
          obtain ⟨ids, chain, rfl⟩ := (ih (arrays_subset_of_mem member) below).mpr deep
          have held : (slots.nodes forest.arrays).toArray[field]? = some (.array id width) := by
            rw [List.getElem?_toArray, slotEq, nodeEq]
          exact ⟨id :: ids, .descend field held stored chain, rfl⟩

/-- No chain of a table is longer than a number exactly where its trees are no deeper. -/
theorem chains_le_iff (invalidHandler : HandlerId) (distinct : forest.names.Nodup)
    (shares : forest.Scoped []) :
    (∀ ids, (forest.table invalidHandler).Chain (forest.table invalidHandler).roots ids →
      ids.length ≤ levels) ↔ Tree.deepest forest.unfold ≤ levels := by
  have found {length : Nat} : (∃ ids, (forest.table invalidHandler).Chain
      (forest.table invalidHandler).roots ids ∧ ids.length = length) ↔
        length ≤ Tree.deepest forest.unfold :=
    exists_chain_iff invalidHandler distinct (List.Subset.refl _) (unfold_unfolds shares)
  constructor
  · intro short
    by_contra deeper
    obtain ⟨ids, chain, same⟩ := found.mpr (Nat.lt_of_not_le deeper)
    exact absurd (short ids chain) (by omega)
  · intro shallow ids chain
    exact Nat.le_trans (found.mp ⟨ids, chain, rfl⟩) shallow

end Forest

/-! ## Built tables -/

/-- An accepted payload nests its own definitions no deeper than allowed. Chains of arrays, and
with them the fields of a walk, keep to the same limit exactly when the payload does so with
every shared array repeated where it is used. -/
theorem ofBytes_ok_chains_iff {config : Config}
    (accepted : Table.ofBytes payload config = .ok table) :
    ∃ (forest : Forest) (body : List UInt8),
      payload = (Header.ofKind .decoder).toBytes ++ body ∧ forest.Listing body ∧
      forest.width = config.slotCount ∧ forest.depth ≤ maxDepth - 1 ∧
      (((∀ ids, table.Chain table.roots ids → ids.length ≤ maxDepth - 1) ∧
          ∀ fields, table.lookup fields = table.lookup (fields.take maxDepth)) ↔
        Tree.deepest forest.unfold ≤ maxDepth - 1) := by
  obtain ⟨-, forest, body, payloadEq, spells, width, fits, rfl⟩ := buildWith_ok_iff.mp accepted
  have chains : (∀ ids, (forest.table config.invalidHandler).Chain
      (forest.table config.invalidHandler).roots ids → ids.length ≤ maxDepth - 1) ↔
        Tree.deepest forest.unfold ≤ maxDepth - 1 :=
    Forest.chains_le_iff config.invalidHandler fits.distinct fits.shares
  refine ⟨forest, body, payloadEq, Forest.listing_iff.mpr spells, width, fits.nested, ?_⟩
  constructor
  · rintro ⟨short, -⟩
    exact chains.mp short
  · intro shallow
    refine ⟨chains.mpr shallow, ?_⟩
    intro fields
    have walked := Table.walk?_take (chains.mpr shallow) fields
    rw [Table.lookup, Table.lookup, Table.lookup?, Table.lookup?, ← walked]
    rfl

/-- An array that another one shares is nested as deep as both together. -/
theorem ofBytes_ok_chains_iff_shared : ∃ table forest body,
    Table.ofBytes [0x01, 0x00, 0xed, 0x1c,
        0x01, 0x01, 0x40, 0x00, 0x00, 0x02, 0x00,
        0x01, 0x01, 0x07, 0x00, 0x01, 0x00, 0x40, 0x00] ⟨2, 3, {}⟩ = .ok table ∧
      [0x01, 0x00, 0xed, 0x1c,
        0x01, 0x01, 0x40, 0x00, 0x00, 0x02, 0x00,
        0x01, 0x01, 0x07, 0x00, 0x01, 0x00, 0x40, 0x00] =
          (Header.ofKind .decoder).toBytes ++ body ∧
      Forest.Listing forest body ∧ forest.width = 2 ∧
      (((∀ ids, table.Chain table.roots ids → ids.length ≤ 7) ∧
          ∀ fields, table.lookup fields = table.lookup (fields.take 8)) ↔
        Tree.deepest forest.unfold ≤ 7) := by
  have accepted : Table.ofBytes [0x01, 0x00, 0xed, 0x1c,
      0x01, 0x01, 0x40, 0x00, 0x00, 0x02, 0x00,
      0x01, 0x01, 0x07, 0x00, 0x01, 0x00, 0x40, 0x00] ⟨2, 3, {}⟩ =
        .ok ⟨#[.array ⟨0⟩ 1, .array ⟨1⟩ 1], #[#[.handler ⟨2⟩], #[.array ⟨0⟩ 1]], {}⟩ := by
    decide +kernel
  obtain ⟨forest, body, payloadEq, listing, width, -, limited⟩ := ofBytes_ok_chains_iff accepted
  exact ⟨_, forest, body, accepted, payloadEq, listing, width, limited⟩

/-- Seven arrays are defined inside one another, and an eighth one shares the outermost of them,
so that a walk needs nine fields. -/
theorem chain_longer_than_limit : ∃ table ids fields,
    Table.ofBytes [0x01, 0x00, 0xed, 0x1c,
        0x01, 0x01, 0x01, 0x00, 0x01, 0x01, 0x02, 0x00, 0x01, 0x01, 0x03, 0x00,
        0x01, 0x01, 0x04, 0x00, 0x01, 0x01, 0x05, 0x00, 0x01, 0x01, 0x06, 0x00,
        0x01, 0x01, 0x07, 0x00, 0x00, 0x03, 0x00,
        0x01, 0x01, 0x08, 0x00, 0x01, 0x00, 0x01, 0x00] ⟨2, 4, {}⟩ = .ok table ∧
      table.Chain table.roots ids ∧ ids.length = maxDepth ∧
      table.lookup fields = ⟨3⟩ ∧ table.lookup (fields.take maxDepth) = ⟨0⟩ := by
  have accepted : Table.ofBytes [0x01, 0x00, 0xed, 0x1c,
      0x01, 0x01, 0x01, 0x00, 0x01, 0x01, 0x02, 0x00, 0x01, 0x01, 0x03, 0x00,
      0x01, 0x01, 0x04, 0x00, 0x01, 0x01, 0x05, 0x00, 0x01, 0x01, 0x06, 0x00,
      0x01, 0x01, 0x07, 0x00, 0x00, 0x03, 0x00,
      0x01, 0x01, 0x08, 0x00, 0x01, 0x00, 0x01, 0x00] ⟨2, 4, {}⟩ =
        .ok ⟨#[.array ⟨6⟩ 1, .array ⟨7⟩ 1],
          #[#[.handler ⟨3⟩], #[.array ⟨0⟩ 1], #[.array ⟨1⟩ 1], #[.array ⟨2⟩ 1],
            #[.array ⟨3⟩ 1], #[.array ⟨4⟩ 1], #[.array ⟨5⟩ 1], #[.array ⟨6⟩ 1]], {}⟩ := by
    decide +kernel
  refine ⟨_, [⟨7⟩, ⟨6⟩, ⟨5⟩, ⟨4⟩, ⟨3⟩, ⟨2⟩, ⟨1⟩, ⟨0⟩], [1, 0, 0, 0, 0, 0, 0, 0, 0], accepted,
    ?_, rfl, rfl, rfl⟩
  exact .descend 1 rfl rfl <| .descend 0 rfl rfl <| .descend 0 rfl rfl <|
    .descend 0 rfl rfl <| .descend 0 rfl rfl <| .descend 0 rfl rfl <|
    .descend 0 rfl rfl <| .descend 0 rfl rfl .stop

end InstructionTables.Dispatch
