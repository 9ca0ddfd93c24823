import InstructionTables.Proofs.DispatchArena

/-! The names that a payload gives its arrays carry no meaning. A forest keeps its table when its
names are changed, as long as names that differ still differ afterwards. -/
namespace InstructionTables.Dispatch.Forest

/-- The forest with other names for its arrays. -/
def rename (change : UInt16 → UInt16) : Forest → Forest
  | nil => nil
  | handler id rest => handler id (rest.rename change)
  | define reference slots rest =>
    define (change reference) (slots.rename change) (rest.rename change)
  | share reference rest => share (change reference) (rest.rename change)

/-- An array under its new name. -/
def renameArray (change : UInt16 → UInt16) (array : UInt16 × Forest) : UInt16 × Forest :=
  (change array.1, array.2.rename change)

/-- Names that differ still differ after the change. -/
def Separates (change : UInt16 → UInt16) (names : List UInt16) : Prop :=
  ∀ first ∈ names, ∀ second ∈ names, change first = change second → first = second

variable {change : UInt16 → UInt16} {forest : Forest} {complete : List (UInt16 × Forest)}

/-! ## What a forest keeps -/

@[simp] theorem width_rename : (forest.rename change).width = forest.width := by
  induction forest with
  | nil => rfl
  | handler id rest ih => simp only [rename, width, ih]
  | define reference slots rest _ ih => simp only [rename, width, ih]
  | share reference rest ih => simp only [rename, width, ih]

@[simp] theorem handlers_rename : (forest.rename change).handlers = forest.handlers := by
  induction forest with
  | nil => rfl
  | handler id rest ih => simp only [rename, handlers, ih]
  | define reference slots rest inner ih => simp only [rename, handlers, inner, ih]
  | share reference rest ih => simp only [rename, handlers, ih]

@[simp] theorem depth_rename : (forest.rename change).depth = forest.depth := by
  induction forest with
  | nil => rfl
  | handler id rest ih => simp only [rename, depth, ih]
  | define reference slots rest inner ih => simp only [rename, depth, inner, ih]
  | share reference rest ih => simp only [rename, depth, ih]

@[simp] theorem arrays_rename :
    (forest.rename change).arrays = forest.arrays.map (renameArray change) := by
  induction forest with
  | nil => rfl
  | handler id rest ih => simp only [rename, arrays, ih]
  | define reference slots rest inner ih =>
    simp only [rename, arrays, inner, ih, List.map_append, List.map_cons, renameArray]
  | share reference rest ih => simp only [rename, arrays, ih]

theorem map_fst_rename : (complete.map (renameArray change)).map Prod.fst =
    (complete.map Prod.fst).map change := by
  rw [List.map_map, List.map_map]
  rfl

@[simp] theorem names_rename : (forest.rename change).names = forest.names.map change := by
  rw [names, arrays_rename, map_fst_rename, names]

theorem Scoped.rename {known : List UInt16} (shares : forest.Scoped known) :
    (forest.rename change).Scoped (known.map change) := by
  induction forest generalizing known with
  | nil => trivial
  | handler id rest ih => exact ih shares
  | define reference slots rest inner ih =>
    refine ⟨inner shares.1, ?_⟩
    have later := ih shares.2
    rwa [List.map_append, List.map_append, List.map_singleton, ← names_rename] at later
  | share reference rest ih => exact ⟨List.mem_map_of_mem shares.1, ih shares.2⟩

/-- A forest keeps to the rules under new names that are as distinct as the old ones. -/
theorem Fits.rename {config : Config} {levels : Nat} (fits : forest.Fits config levels [])
    (separates : Separates change forest.names) :
    (forest.rename change).Fits config levels [] := by
  constructor
  · rw [handlers_rename]
    exact fits.handlers
  · rw [arrays_rename]
    intro array member
    obtain ⟨before, listed, rfl⟩ := List.mem_map.mp member
    rw [renameArray, width_rename]
    exact fits.widths before listed
  · rw [depth_rename]
    exact fits.nested
  · rw [List.nil_append, names_rename]
    exact fits.distinct.map_on separates
  · exact fits.shares.rename

/-! ## What a table keeps -/

/-- A name leads to the same node before and after. -/
theorem node_rename (distinct : (complete.map Prod.fst).Nodup)
    (separates : Separates change (complete.map Prod.fst))
    (member : reference ∈ complete.map Prod.fst) :
    node (complete.map (renameArray change)) (change reference) = node complete reference := by
  obtain ⟨⟨reference, slots⟩, listed, rfl⟩ := List.mem_map.mp member
  obtain ⟨position, found⟩ := List.mem_iff_getElem?.mp listed
  have renamed : (complete.map (renameArray change))[position]? =
      some (change reference, slots.rename change) := by
    rw [List.getElem?_map, found]
    rfl
  have distinctAfter : ((complete.map (renameArray change)).map Prod.fst).Nodup := by
    rw [map_fst_rename]
    exact distinct.map_on separates
  have before := (node_of_getElem? distinct found).2
  have after := (node_of_getElem? distinctAfter renamed).2
  rw [width_rename] at after
  exact after.trans before.symm

theorem nodes_rename (distinct : (complete.map Prod.fst).Nodup)
    (separates : Separates change (complete.map Prod.fst))
    (closed : ∀ reference ∈ forest.references, reference ∈ complete.map Prod.fst) :
    (forest.rename change).nodes (complete.map (renameArray change)) = forest.nodes complete := by
  induction forest with
  | nil => rfl
  | handler id rest ih => simp only [rename, nodes, ih closed]
  | define reference slots rest _ ih =>
    obtain ⟨first, others⟩ := List.forall_mem_cons.mp closed
    simp only [rename, nodes, node_rename distinct separates first, ih others]
  | share reference rest ih =>
    obtain ⟨first, others⟩ := List.forall_mem_cons.mp closed
    simp only [rename, nodes, node_rename distinct separates first, ih others]

/-- A forest describes the same table under new names. -/
theorem table_rename (invalidHandler : HandlerId) (distinct : forest.names.Nodup)
    (shares : forest.Scoped [])
    (separates : Separates change forest.names) :
    (forest.rename change).table invalidHandler = forest.table invalidHandler := by
  have same {slots : Forest} (closed : ∀ reference ∈ slots.references, reference ∈ forest.names) :
      (slots.rename change).nodes (forest.arrays.map (renameArray change)) =
        slots.nodes forest.arrays :=
    nodes_rename distinct separates closed
  rw [table, table, arrays_rename, List.map_map]
  congr 2
  · exact same shares.references_subset
  · apply List.map_congr_left
    intro array member
    exact congrArg List.toArray (same (shares.references_of_mem member))

end InstructionTables.Dispatch.Forest
