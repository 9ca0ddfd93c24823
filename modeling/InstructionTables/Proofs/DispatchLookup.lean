import InstructionTables.Proofs.DispatchArena

/-! Lookups in a dispatch table see no sharing. A forest unfolds into trees, in which a shared
array is repeated wherever it is used, and a walk through the arena takes the same turns as a
walk through the trees. Names and ids only matter until the trees are there. -/
namespace InstructionTables.Dispatch

/-! ## Unfolding -/

/-- A slot without names. -/
inductive Tree where
  | handler (id : HandlerId)
  | array (slots : List Tree)
deriving Repr

/-- The handler that fields select, one slot for each field. Fields that leave an array or end
before a handler select the invalid one, and fields after a handler do not matter. -/
def Tree.walk (invalidHandler : HandlerId) : List Tree → List Nat → HandlerId
  | _, [] => invalidHandler
  | slots, field :: fields =>
    match slots[field]? with
    | none => invalidHandler
    | some (.handler id) => id
    | some (.array children) => walk invalidHandler children fields

namespace Forest

/-- The trees of the slots and of all arrays that are complete after them, given those of the
arrays that are complete before them. -/
def unfoldAfter (known : List (UInt16 × List Tree)) :
    Forest → List Tree × List (UInt16 × List Tree)
  | nil => ([], known)
  | handler id rest =>
    let (trees, complete) := rest.unfoldAfter known
    (.handler ⟨id⟩ :: trees, complete)
  | define reference slots rest =>
    let (children, inner) := slots.unfoldAfter known
    let (trees, complete) := rest.unfoldAfter (inner ++ [(reference, children)])
    (.array children :: trees, complete)
  | share reference rest =>
    let (trees, complete) := rest.unfoldAfter known
    (.array ((known.lookup reference).getD []) :: trees, complete)

/-- The trees of the slots, where every use of an array has the trees of its slots. -/
def unfold (forest : Forest) : List Tree :=
  (forest.unfoldAfter []).1

/-- What it is for trees to be those of slots. A shared array has the slots of any array with
its name. -/
inductive Unfolds (arrays : List (UInt16 × Forest)) : Forest → List Tree → Prop where
  | nil : Unfolds arrays nil []
  | handler {id : UInt16} {rest : Forest} {trees : List Tree} :
      Unfolds arrays rest trees → Unfolds arrays (handler id rest) (.handler ⟨id⟩ :: trees)
  | define {reference : UInt16} {slots rest : Forest} {children trees : List Tree} :
      Unfolds arrays slots children → Unfolds arrays rest trees →
      Unfolds arrays (define reference slots rest) (.array children :: trees)
  | share {reference : UInt16} {slots rest : Forest} {children trees : List Tree} :
      (reference, slots) ∈ arrays → Unfolds arrays slots children → Unfolds arrays rest trees →
      Unfolds arrays (share reference rest) (.array children :: trees)

variable {listed : List (UInt16 × Forest)} {known : List (UInt16 × List Tree)}

/-- Every name that has trees has those of an array. -/
def Resolved (arrays : List (UInt16 × Forest)) (known : List (UInt16 × List Tree)) : Prop :=
  ∀ entry ∈ known, ∃ slots, (entry.1, slots) ∈ arrays ∧ Unfolds arrays slots entry.2

private theorem lookup_of_mem {entries : List (UInt16 × List Tree)}
    (member : reference ∈ entries.map Prod.fst) :
    ∃ trees, entries.lookup reference = some trees ∧ (reference, trees) ∈ entries := by
  induction entries with
  | nil => cases member
  | cons entry entries ih =>
    obtain ⟨name, trees⟩ := entry
    by_cases same : reference = name
    · subst same
      exact ⟨trees, List.lookup_cons_self, List.mem_cons_self⟩
    · have later : reference ∈ entries.map Prod.fst := by simpa [same] using member
      obtain ⟨found, lookupEq, listed⟩ := ih later
      refine ⟨found, ?_, List.mem_cons_of_mem _ listed⟩
      rw [List.lookup_cons, beq_false_of_ne same]
      exact lookupEq

/-- Unfolding slots after complete arrays gives their trees, and the arrays they define are
complete with their trees as well. -/
theorem unfoldAfter_unfolds {forest : Forest} (resolved : Resolved listed known)
    (shares : forest.Scoped (known.map Prod.fst)) (included : forest.arrays ⊆ listed) :
    Unfolds listed forest (forest.unfoldAfter known).1 ∧
      Resolved listed (forest.unfoldAfter known).2 ∧
      (forest.unfoldAfter known).2.map Prod.fst = known.map Prod.fst ++ forest.names := by
  induction forest generalizing known with
  | nil => exact ⟨Unfolds.nil, resolved, (List.append_nil _).symm⟩
  | handler id rest ih =>
    obtain ⟨trees, complete, names⟩ := ih resolved shares included
    exact ⟨Unfolds.handler trees, complete, names⟩
  | define reference slots rest inner ih =>
    rw [arrays_define, List.append_subset, List.append_subset] at included
    obtain ⟨⟨innerIncluded, ownIncluded⟩, restIncluded⟩ := included
    obtain ⟨children, innerResolved, innerNames⟩ := inner resolved shares.1 innerIncluded
    have own : Resolved listed
        ((slots.unfoldAfter known).2 ++ [(reference, (slots.unfoldAfter known).1)]) := by
      intro entry member
      rcases List.mem_append.mp member with earlier | last
      · exact innerResolved entry earlier
      · rw [List.mem_singleton.mp last]
        exact ⟨slots, ownIncluded List.mem_cons_self, children⟩
    have ownNames : ((slots.unfoldAfter known).2 ++
        [(reference, (slots.unfoldAfter known).1)]).map Prod.fst =
          known.map Prod.fst ++ slots.names ++ [reference] := by
      rw [List.map_append, innerNames]
      rfl
    obtain ⟨trees, complete, names⟩ := ih own (ownNames ▸ shares.2) restIncluded
    refine ⟨Unfolds.define children trees, complete, names.trans ?_⟩
    rw [ownNames, names_define]
    simp
  | share reference rest ih =>
    obtain ⟨children, lookupEq, member⟩ := lookup_of_mem shares.1
    obtain ⟨slots, listedSlots, unfolds⟩ := resolved (reference, children) member
    obtain ⟨trees, complete, names⟩ := ih resolved shares.2 included
    refine ⟨?_, complete, names⟩
    simp only [unfoldAfter, lookupEq, Option.getD_some]
    exact Unfolds.share listedSlots unfolds trees

theorem unfold_unfolds {forest : Forest} (shares : forest.Scoped []) :
    Unfolds forest.arrays forest forest.unfold :=
  (@unfoldAfter_unfolds forest.arrays [] forest nofun shares (List.Subset.refl _)).1

/-- The arrays inside an array are among all arrays. -/
theorem arrays_subset_of_mem {forest : Forest} (member : (reference, slots) ∈ forest.arrays) :
    slots.arrays ⊆ forest.arrays := by
  induction forest with
  | nil => cases member
  | handler id rest ih => exact ih member
  | share name rest ih => exact ih member
  | define name children rest inner ih =>
    rw [arrays_define] at member ⊢
    rcases List.mem_append.mp member with earlier | later
    · apply List.subset_append_of_subset_left
      apply List.subset_append_of_subset_left
      rcases List.mem_append.mp earlier with below | own
      · exact inner below
      · cases List.mem_singleton.mp own
        exact List.Subset.refl _
    · exact List.subset_append_of_subset_right _ (ih later)

/-! ## Slots and their trees -/

/-- A slot and a tree that stand for the same thing: the handler of one is the handler of the
other, and an array is listed under the name that the slot calls it. -/
inductive Agrees (arrays : List (UInt16 × Forest)) : Node → Tree → Prop where
  | handler (id : HandlerId) : Agrees arrays (.handler id) (.handler id)
  | array {reference : UInt16} {slots : Forest} {children : List Tree} :
      (reference, slots) ∈ arrays → Unfolds arrays slots children →
      Agrees arrays (node arrays reference) (.array children)

/-- Slots and their trees agree one by one. -/
theorem nodes_agree {forest : Forest} (unfolds : Unfolds listed forest trees)
    (included : forest.arrays ⊆ listed) :
    List.Forall₂ (Agrees listed) (forest.nodes listed) trees := by
  induction unfolds with
  | nil => exact List.Forall₂.nil
  | handler _ ih => exact List.Forall₂.cons (Agrees.handler _) (ih included)
  | define children _ _ ih =>
    rw [arrays_define, List.append_subset, List.append_subset] at included
    obtain ⟨⟨-, ownIncluded⟩, restIncluded⟩ := included
    exact List.Forall₂.cons (Agrees.array (ownIncluded List.mem_cons_self) children)
      (ih restIncluded)
  | share member children _ _ ih =>
    exact List.Forall₂.cons (Agrees.array member children) (ih included)

/-- Slots that agree with trees have the same turns. -/
theorem getElem?_agrees {slots : List Node} {trees : List Tree}
    (agree : List.Forall₂ (Agrees listed) slots trees) (field : Nat) :
    slots[field]? = none ∧ trees[field]? = none ∨
      ∃ slot tree, slots[field]? = some slot ∧ trees[field]? = some tree ∧
        Agrees listed slot tree := by
  induction agree generalizing field with
  | nil => exact Or.inl ⟨rfl, rfl⟩
  | cons first _ ih =>
    cases field with
    | zero => exact Or.inr ⟨_, _, rfl, rfl, first⟩
    | succ field => simpa only [List.getElem?_cons_succ] using ih field

variable {forest : Forest} {config : Config}

/-- The slots of an array are found at the id that its name has. -/
theorem children?_of_mem (invalidHandler : HandlerId) (distinct : forest.names.Nodup)
    (member : (reference, slots) ∈ forest.arrays) :
    ∃ id width, node forest.arrays reference = .array id width ∧
      (forest.table invalidHandler).children? id =
        some (slots.nodes forest.arrays).toArray := by
  obtain ⟨position, found⟩ := List.mem_iff_getElem?.mp member
  exact ⟨_, _, (node_of_getElem? distinct found).2,
    children?_of_getElem? invalidHandler distinct found⟩

/-- A walk through the arena takes the turns of a walk through the trees. -/
theorem walk?_unfolds (invalidHandler : HandlerId) (distinct : forest.names.Nodup)
    {slots : Forest} (included : slots.arrays ⊆ forest.arrays)
    (unfolds : Unfolds forest.arrays slots trees) (fields : List Nat) :
    (forest.table invalidHandler).walk? (slots.nodes forest.arrays).toArray fields =
      some (Tree.walk invalidHandler trees fields) := by
  induction fields generalizing slots trees with
  | nil => rfl
  | cons field fields ih =>
    rw [Table.walk?, Tree.walk, List.getElem?_toArray]
    obtain ⟨outside, beyond⟩ | ⟨slot, tree, slotEq, treeEq, agrees⟩ :=
      getElem?_agrees (nodes_agree unfolds included) field
    · rw [outside, beyond]
      rfl
    · rw [slotEq, treeEq]
      cases agrees with
      | handler id => rfl
      | array member children =>
        obtain ⟨id, width, nodeEq, childrenEq⟩ := children?_of_mem invalidHandler distinct member
        simp only [nodeEq, childrenEq]
        exact ih (arrays_subset_of_mem member) children

/-- Every forest that keeps to the rules can be written, and lookups in the table that is read
back are walks through the trees of the forest. No walk meets an array that is missing. -/
theorem ofBytes_payload_lookup (width : forest.width = config.slotCount)
    (invalidKnown : config.invalidHandler.value.toNat < config.handlerCount)
    (fits : forest.Fits config (maxDepth - 1) []) :
    ∃ table, Table.ofBytes forest.payload config = .ok table ∧
      table.arrays.size = forest.arrays.length ∧
      ∀ fields,
        table.lookup? fields = some (Tree.walk config.invalidHandler forest.unfold fields) ∧
        table.lookup fields = Tree.walk config.invalidHandler forest.unfold fields := by
  have accepted : Table.ofBytes forest.payload config =
      .ok (forest.table config.invalidHandler) :=
    buildWith_ok_iff.mpr ⟨invalidKnown, forest, _, rfl, Item.spells_encodeAll _, width, fits, rfl⟩
  refine ⟨_, accepted, ?_, ?_⟩
  · rw [table, List.size_toArray, List.length_map]
  · intro fields
    have walked : (forest.table config.invalidHandler).lookup? fields =
        some (Tree.walk config.invalidHandler forest.unfold fields) :=
      walk?_unfolds config.invalidHandler fits.distinct (List.Subset.refl _)
        (unfold_unfolds fits.shares) fields
    refine ⟨walked, ?_⟩
    rw [Table.lookup, walked, Option.getD_some]

/-- Two slots share an array, and a third one shares it from within another array. -/
theorem ofBytes_payload_lookup_shared : ∃ table,
    Table.ofBytes [0x01, 0x00, 0xed, 0x1c,
        0x01, 0x02, 0x40, 0x00, 0x00, 0x01, 0x00, 0x00, 0x02, 0x00,
        0x01, 0x00, 0x40, 0x00,
        0x01, 0x01, 0x07, 0x00, 0x01, 0x00, 0x40, 0x00] ⟨3, 3, {}⟩ = .ok table ∧
      table.arrays.size = 2 ∧ table.lookup [2, 0, 1, 5] = ⟨2⟩ ∧ table.lookup [1] = ⟨0⟩ := by
  obtain ⟨table, accepted, size, looked⟩ := @ofBytes_payload_lookup
    (.define 64 (.handler 1 (.handler 2 .nil)) (.share 64 (.define 7 (.share 64 .nil) .nil)))
    ⟨3, 3, {}⟩ rfl (by decide) (by decide)
  exact ⟨table, accepted, size, (looked _).2, (looked _).2⟩

end Forest

end InstructionTables.Dispatch
