import InstructionTables.Proofs.DispatchAcceptance

/-! What a built dispatch table can be relied on for. Every slot holds a handler that exists or
an array that is stored with the width the slot tells, and an array only holds arrays that were
complete before it, so that no walk leaves the arena or runs in a circle. -/
namespace InstructionTables.Dispatch

/-! ## Sound tables -/

/-- A slot that may stand where only the arrays before a bound can be named. -/
def Node.Sound (table : Table) (handlerCount bound : Nat) : Node → Prop
  | .handler id => id.index < handlerCount
  | .array id width => id.index < bound ∧
      ∃ slots, table.children? id = some slots ∧ width.toNat = slots.size ∧ 1 ≤ slots.size

/-- What holds of all parts of a table at once. -/
structure Table.Sound (table : Table) (config : Config) : Prop where
  slotCount : table.roots.size = config.slotCount
  invalidHandler : table.invalidHandler.index < config.handlerCount
  roots : ∀ node ∈ table.roots, Node.Sound table config.handlerCount table.arrays.size node
  /-- An array holds no array that is stored at its own position or later. -/
  arrays : ∀ position slots, table.arrays[position]? = some slots →
    ∀ node ∈ slots, Node.Sound table config.handlerCount position node

namespace Table.Sound

variable {table : Table} {config : Config}

/-- A walk from sound slots meets stored arrays only and ends at a handler that exists. -/
theorem walk?_eq_some (sound : table.Sound config)
    (each : ∀ node ∈ slots, Node.Sound table config.handlerCount bound node)
    (fields : List Nat) :
    ∃ handler, table.walk? slots fields = some handler ∧ handler.index < config.handlerCount := by
  have invalid : ∃ handler, some table.invalidHandler = some handler ∧
      handler.index < config.handlerCount := ⟨_, rfl, sound.invalidHandler⟩
  induction fields generalizing slots bound with
  | nil => exact invalid
  | cons field fields ih =>
    rw [Table.walk?]
    cases held : slots[field]? with
    | none => exact invalid
    | some node =>
      have nodeSound := each node (Array.mem_of_getElem? held)
      cases node with
      | handler id => exact ⟨id, rfl, nodeSound⟩
      | array id width =>
        obtain ⟨-, children, stored, -⟩ := nodeSound
        simp only [stored]
        exact ih (sound.arrays id.index children stored)

end Table.Sound

/-! ## Tables of forests -/

namespace Forest

variable {complete : List (UInt16 × Forest)} {forest : Forest} {config : Config}

/-- The node of a slot has one of the handlers or one of the names of the slots. -/
theorem mem_nodes {slot : Node} (member : slot ∈ forest.nodes complete) :
    (∃ id ∈ forest.handlers, slot = .handler ⟨id⟩) ∨
      ∃ reference ∈ forest.references, slot = node complete reference := by
  induction forest with
  | nil => cases member
  | handler id rest ih =>
    rcases List.mem_cons.mp member with rfl | later
    · exact Or.inl ⟨id, List.mem_cons_self, rfl⟩
    · rcases ih later with ⟨other, held, same⟩ | named
      · exact Or.inl ⟨other, List.mem_cons_of_mem _ held, same⟩
      · exact Or.inr named
  | define reference slots rest _ ih =>
    rcases List.mem_cons.mp member with rfl | later
    · exact Or.inr ⟨reference, List.mem_cons_self, rfl⟩
    · rcases ih later with ⟨other, held, same⟩ | ⟨other, held, same⟩
      · exact Or.inl ⟨other, List.mem_append_right _ held, same⟩
      · exact Or.inr ⟨other, List.mem_cons_of_mem _ held, same⟩
  | share reference rest ih =>
    rcases List.mem_cons.mp member with rfl | later
    · exact Or.inr ⟨reference, List.mem_cons_self, rfl⟩
    · rcases ih later with handled | ⟨other, held, same⟩
      · exact Or.inl handled
      · exact Or.inr ⟨other, List.mem_cons_of_mem _ held, same⟩

/-- The handlers inside an array are among all handlers. -/
theorem handlers_subset_of_mem (member : (reference, slots) ∈ forest.arrays) :
    slots.handlers ⊆ forest.handlers := by
  induction forest with
  | nil => cases member
  | handler id rest ih => exact List.subset_cons_of_subset _ (ih member)
  | share name rest ih => exact ih member
  | define name children rest inner ih =>
    rcases List.mem_append.mp member with below | later
    · exact List.subset_append_of_subset_left _ (inner below)
    · rcases List.mem_cons.mp later with own | after
      · cases own
        exact List.subset_append_left _ _
      · exact List.subset_append_of_subset_right _ (ih after)

/-- Where a slot defines an array, an array that is listed is one of those among the slots of that
array, or is that array itself, or comes after it. -/
theorem arrays_define_split
    (listed : (define own children rest).arrays = before ++ array :: after) :
    (∃ between, children.arrays = before ++ array :: between ∧
      after = between ++ (own, children) :: rest.arrays) ∨
    (before = children.arrays ∧ array = (own, children) ∧ after = rest.arrays) ∨
    ∃ between, before = children.arrays ++ (own, children) :: between ∧
      rest.arrays = between ++ array :: after := by
  rcases List.append_eq_append_iff.mp listed with
    ⟨between, rfl, others⟩ | ⟨between, childrenEq, others⟩
  · rcases List.cons_eq_append_iff.mp others with ⟨rfl, same⟩ | ⟨later, rfl, restEq⟩
    · cases same
      exact Or.inr (Or.inl ⟨List.append_nil _, rfl, rfl⟩)
    · exact Or.inr (Or.inr ⟨later, rfl, restEq⟩)
  · rcases List.cons_eq_append_iff.mp others with ⟨rfl, same⟩ | ⟨later, rfl, afterEq⟩
    · cases same
      exact Or.inr (Or.inl ⟨(childrenEq.trans (List.append_nil _)).symm, rfl, rfl⟩)
    · exact Or.inl ⟨later, childrenEq, afterEq⟩

/-- An array names only arrays that are complete before it. -/
theorem Scoped.references_before (shares : forest.Scoped known)
    (listed : forest.arrays = before ++ (reference, slots) :: after) :
    ∀ name ∈ slots.references, name ∈ known ++ before.map Prod.fst := by
  induction forest generalizing known before after with
  | nil => simp [arrays] at listed
  | handler id rest ih => exact ih shares listed
  | share name rest ih => exact ih shares.2 listed
  | define own children rest inner ih =>
    rcases arrays_define_split listed with
      ⟨between, childrenEq, -⟩ | ⟨rfl, same, -⟩ | ⟨between, rfl, restEq⟩
    · exact inner shares.1 childrenEq
    · cases same
      exact shares.1.references_subset
    · intro name named
      have found := ih shares.2 restEq name named
      simpa [names, or_assoc] using found

/-- The slots of an array only use names of the forest. -/
theorem Scoped.references_of_mem (shares : forest.Scoped [])
    (member : (reference, slots) ∈ forest.arrays) :
    ∀ name ∈ slots.references, name ∈ forest.names := by
  intro name named
  obtain ⟨before, after, split⟩ := List.append_of_mem member
  have earlier := shares.references_before split name named
  rw [names, split, List.map_append]
  exact List.mem_append_left _ earlier

/-- The slots of an array are found at its position. -/
theorem children?_of_getElem? (invalidHandler : HandlerId) (distinct : forest.names.Nodup)
    (found : forest.arrays[position]? = some (reference, slots)) :
    (forest.table invalidHandler).children? (.ofIndex position) =
      some (slots.nodes forest.arrays).toArray := by
  have small := (node_of_getElem? distinct found).1
  rw [Table.children?, index_ofIndex small, table]
  simp [found]

/-- A slot with an array before a bound is sound below that bound. -/
private theorem node_sound (fits : forest.Fits config levels [])
    (found : forest.arrays[position]? = some (reference, slots)) (before : position < bound) :
    (node forest.arrays reference).Sound (forest.table config.invalidHandler)
      config.handlerCount bound := by
  obtain ⟨small, nodeEq⟩ := node_of_getElem? fits.distinct found
  obtain ⟨positive, fitsWord⟩ := fits.widths _ (List.mem_of_getElem? found)
  rw [nodeEq]
  refine ⟨?_, _, children?_of_getElem? _ fits.distinct found, ?_, ?_⟩
  · rwa [index_ofIndex small]
  · rw [List.size_toArray, nodes_length]
    exact UInt32.toNat_ofNat_of_lt fitsWord
  · rw [List.size_toArray, nodes_length]
    exact positive

/-- The slots of a forest are sound below a bound when the names they use are defined before
the bound. -/
private theorem nodes_sound {slots : Forest} (fits : forest.Fits config levels [])
    (handlers : slots.handlers ⊆ forest.handlers)
    (references : ∀ name ∈ slots.references, name ∈ (forest.arrays.take bound).map Prod.fst) :
    ∀ slot ∈ (slots.nodes forest.arrays).toArray,
      slot.Sound (forest.table config.invalidHandler) config.handlerCount bound := by
  intro slot member
  rcases mem_nodes (List.mem_toArray.mp member) with ⟨id, held, rfl⟩ | ⟨name, held, rfl⟩
  · exact fits.handlers id (handlers held)
  · obtain ⟨⟨_, children⟩, taken, rfl⟩ := List.mem_map.mp (references name held)
    obtain ⟨position, inside, found⟩ := List.mem_take_iff_getElem.mp taken
    exact node_sound fits (List.getElem?_eq_some_iff.mpr ⟨by omega, found⟩) (by omega)

/-- The table of a forest that keeps to the rules is sound. -/
theorem table_sound (width : forest.width = config.slotCount)
    (invalidKnown : config.invalidHandler.value.toNat < config.handlerCount)
    (fits : forest.Fits config levels []) :
    (forest.table config.invalidHandler).Sound config := by
  constructor
  · rw [table, List.size_toArray, nodes_length, width]
  · exact invalidKnown
  · rw [table_arrays_size]
    refine nodes_sound fits (List.Subset.refl _) ?_
    rw [List.take_length]
    exact fits.shares.references_subset
  · intro position slots stored
    have listed : (forest.arrays.map fun array =>
        (array.2.nodes forest.arrays).toArray)[position]? = some slots := by
      rwa [table, List.getElem?_toArray] at stored
    rw [List.getElem?_map, Option.map_eq_some_iff] at listed
    obtain ⟨⟨reference, children⟩, found, rfl⟩ := listed
    refine nodes_sound fits (handlers_subset_of_mem (List.mem_of_getElem? found)) ?_
    exact fits.shares.references_before (split_at found)

end Forest

/-! ## Built tables -/

/-- Every table that is built is sound, and no lookup in it meets an array that is missing or
ends at a handler that does not exist. -/
theorem ofBytes_ok_sound {config : Config} (accepted : Table.ofBytes payload config = .ok table) :
    table.Sound config ∧ ∀ fields, ∃ handler, table.lookup? fields = some handler ∧
      table.lookup fields = handler ∧ handler.index < config.handlerCount := by
  obtain ⟨known, forest, body, -, -, width, fits, rfl⟩ := buildWith_ok_iff.mp accepted
  have sound := forest.table_sound width known fits
  refine ⟨sound, fun fields => ?_⟩
  obtain ⟨handler, walked, held⟩ := sound.walk?_eq_some sound.roots fields
  refine ⟨handler, walked, ?_, held⟩
  rw [Table.lookup, Table.lookup?, walked, Option.getD_some]

/-- An array is defined among the slots of the root, used there again, and used once more from
within an array that is defined after it. -/
theorem ofBytes_ok_sound_shared : ∃ table,
    Table.ofBytes [0x01, 0x00, 0xed, 0x1c,
        0x01, 0x02, 0x40, 0x00, 0x00, 0x01, 0x00, 0x00, 0x02, 0x00,
        0x01, 0x00, 0x40, 0x00,
        0x01, 0x01, 0x07, 0x00, 0x01, 0x00, 0x40, 0x00] ⟨3, 3, {}⟩ = .ok table ∧
      table.arrays.size = 2 ∧ table.Sound ⟨3, 3, {}⟩ ∧
      ∃ handler, table.lookup? [2, 0, 1] = some handler ∧ handler.index < 3 := by
  have accepted : Table.ofBytes [0x01, 0x00, 0xed, 0x1c,
      0x01, 0x02, 0x40, 0x00, 0x00, 0x01, 0x00, 0x00, 0x02, 0x00,
      0x01, 0x00, 0x40, 0x00,
      0x01, 0x01, 0x07, 0x00, 0x01, 0x00, 0x40, 0x00] ⟨3, 3, {}⟩ =
        .ok ⟨#[.array ⟨0⟩ 2, .array ⟨0⟩ 2, .array ⟨1⟩ 1],
          #[#[.handler ⟨1⟩, .handler ⟨2⟩], #[.array ⟨0⟩ 2]], {}⟩ := by
    decide +kernel
  obtain ⟨sound, looked⟩ := ofBytes_ok_sound accepted
  obtain ⟨handler, found, -, held⟩ := looked [2, 0, 1]
  exact ⟨_, accepted, rfl, sound, handler, found, held⟩

end InstructionTables.Dispatch
