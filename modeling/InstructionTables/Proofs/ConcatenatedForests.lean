import InstructionTables.Proofs.DispatchArena

/-! Forests that follow one another. The arrays of the second forest are complete after those of
the first, so that they are stored after them, and apart from that neither forest changes what the
other one describes, as long as no name is defined in both. -/
namespace InstructionTables.Dispatch

/-! ## Nodes and tables -/

/-- The same node where `count` arrays are stored before all others. -/
def Node.shift (count : Nat) : Node → Node
  | handler id => handler id
  | array id width => array (.ofIndex (id.index + count)) width

/-- The slots of one table followed by those of another, whose arrays are stored after the arrays
of the first. -/
def Table.concat (first second : Table) : Table where
  roots := first.roots ++ second.roots.map (Node.shift first.arrays.size)
  arrays := first.arrays ++
    second.arrays.map fun slots => slots.map (Node.shift first.arrays.size)
  invalidHandler := first.invalidHandler

namespace Forest

/-- The slots of one forest followed by those of another. -/
def concat : Forest → Forest → Forest
  | nil, more => more
  | handler id rest, more => handler id (rest.concat more)
  | define reference slots rest, more => define reference slots (rest.concat more)
  | share reference rest, more => share reference (rest.concat more)

variable {first second forest : Forest} {config : Config} {levels : Nat} {known : List UInt16}
variable {before complete : List (UInt16 × Forest)}

/-! ## What forests list -/

@[simp] theorem width_concat : (first.concat second).width = first.width + second.width := by
  induction first with
  | nil => rw [concat, width, Nat.zero_add]
  | handler id rest ih => rw [concat, width, width, ih, Nat.add_right_comm]
  | define reference slots rest _ ih => rw [concat, width, width, ih, Nat.add_right_comm]
  | share reference rest ih => rw [concat, width, width, ih, Nat.add_right_comm]

@[simp] theorem records_concat : (first.concat second).records = first.records ++ second.records := by
  induction first with
  | nil => rfl
  | handler id rest ih => rw [concat, records, records, ih, List.cons_append]
  | define reference slots rest _ ih =>
    rw [concat, records, records, ih, List.cons_append, List.append_assoc]
  | share reference rest ih => rw [concat, records, records, ih, List.cons_append]

@[simp] theorem items_concat : (first.concat second).items = first.items ++ second.items := by
  rw [items, records_concat, List.flatMap_append, items, items]

@[simp] theorem arrays_concat : (first.concat second).arrays = first.arrays ++ second.arrays := by
  induction first with
  | nil => rfl
  | handler id rest ih => exact ih
  | define reference slots rest _ ih =>
    rw [concat, arrays, arrays, ih, List.append_assoc, List.cons_append]
  | share reference rest ih => exact ih

@[simp] theorem names_concat : (first.concat second).names = first.names ++ second.names := by
  rw [names, arrays_concat, List.map_append, names, names]

theorem nodes_concat : (first.concat second).nodes complete =
    first.nodes complete ++ second.nodes complete := by
  induction first with
  | nil => rfl
  | handler id rest ih => rw [concat, nodes, nodes, ih, List.cons_append]
  | define reference slots rest _ ih => rw [concat, nodes, nodes, ih, List.cons_append]
  | share reference rest ih => rw [concat, nodes, nodes, ih, List.cons_append]

/-! ## Rules -/

/-- Slots may use no fewer names when more of them are known. -/
theorem Scoped.mono {more : List UInt16} (shares : forest.Scoped known) (included : known ⊆ more) :
    forest.Scoped more := by
  induction forest generalizing known more with
  | nil => trivial
  | handler id rest ih => exact ih shares included
  | define reference slots rest inner ih =>
    refine ⟨inner shares.1 included, ih shares.2 ?_⟩
    exact List.append_subset.mpr ⟨List.append_subset.mpr
      ⟨fun name member => by simp [included member], by simp⟩, by simp⟩
  | share reference rest ih => exact ⟨included shares.1, ih shares.2 included⟩

/-- Slots keep to the rules behind arrays that they do not use, if none of those has one of their
names. -/
theorem Fits.behind {earlier : List UInt16} (fits : forest.Fits config levels known)
    (distinct : (earlier ++ known).Nodup) (apart : earlier.Disjoint forest.names) :
    forest.Fits config levels (earlier ++ known) := by
  obtain ⟨-, own, unused⟩ := List.nodup_append'.mp fits.distinct
  have all : (earlier ++ known ++ forest.names).Nodup :=
    List.nodup_append'.mpr ⟨distinct, own, List.disjoint_append_left.mpr ⟨apart, unused⟩⟩
  exact ⟨fits.handlers, fits.widths, fits.nested, all,
    fits.shares.mono (List.subset_append_right earlier known)⟩

/-- Forests keep to the rules together if each does at its place. -/
theorem Fits.concat (firstFits : first.Fits config levels known)
    (secondFits : second.Fits config levels (known ++ first.names)) :
    (first.concat second).Fits config levels known := by
  induction first generalizing known with
  | nil => simpa [concat, names, arrays] using secondFits
  | handler id rest ih =>
    obtain ⟨handled, others⟩ := fits_handler_iff.mp firstFits
    exact fits_handler_iff.mpr ⟨handled, ih others secondFits⟩
  | define reference slots rest _ ih =>
    obtain ⟨below, levelsEq, width, inner, fresh, others⟩ := fits_define_iff.mp firstFits
    have later : second.Fits config levels (known ++ slots.names ++ [reference] ++ rest.names) := by
      simpa [names_define] using secondFits
    exact fits_define_iff.mpr ⟨below, levelsEq, width, inner, fresh, ih others later⟩
  | share reference rest ih =>
    obtain ⟨member, others⟩ := fits_share_iff.mp firstFits
    exact fits_share_iff.mpr ⟨member, ih others secondFits⟩

/-! ## Tables -/

/-- Behind other arrays, a name leads to a position that is higher by their number. -/
theorem node_behind (distinct : (complete.map Prod.fst).Nodup)
    (member : reference ∈ complete.map Prod.fst) (apart : reference ∉ before.map Prod.fst) :
    node (before ++ complete) reference = (node complete reference).shift before.length := by
  have position : ((before ++ complete).map Prod.fst).idxOf reference =
      before.length + (complete.map Prod.fst).idxOf reference := by
    rw [List.map_append, List.idxOf_append_of_notMem apart, List.length_map]
  have small : (complete.map Prod.fst).idxOf reference < 2 ^ 16 :=
    lt_of_lt_of_le (List.idxOf_lt_length_of_mem member) (length_le_of_nodup distinct)
  simp only [node, position, Node.shift, index_ofIndex small,
    List.getElem?_append_right (Nat.le_add_right _ _), Nat.add_sub_cancel_left, Nat.add_comm]

theorem nodes_behind (distinct : (complete.map Prod.fst).Nodup)
    (closed : ∀ reference ∈ forest.references, reference ∈ complete.map Prod.fst)
    (apart : (before.map Prod.fst).Disjoint (complete.map Prod.fst)) :
    forest.nodes (before ++ complete) =
      (forest.nodes complete).map (Node.shift before.length) := by
  have moved {reference : UInt16} (member : reference ∈ complete.map Prod.fst) :=
    node_behind distinct member fun earlier => apart earlier member
  induction forest with
  | nil => rfl
  | handler id rest ih => simp only [nodes, List.map_cons, Node.shift, ih closed]
  | define reference slots rest _ ih =>
    obtain ⟨own, others⟩ := List.forall_mem_cons.mp closed
    simp only [nodes, List.map_cons, moved own, ih others]
  | share reference rest ih =>
    obtain ⟨own, others⟩ := List.forall_mem_cons.mp closed
    simp only [nodes, List.map_cons, moved own, ih others]

/-- Forests without a common name describe together what they describe apart. -/
theorem table_concat (invalidHandler : HandlerId) (distinct : second.names.Nodup)
    (firstShares : first.Scoped []) (secondShares : second.Scoped [])
    (apart : first.names.Disjoint second.names) :
    (first.concat second).table invalidHandler =
      (first.table invalidHandler).concat (second.table invalidHandler) := by
  have kept {slots : Forest} (closed : ∀ name ∈ slots.references, name ∈ first.names) :
      slots.nodes (first.arrays ++ second.arrays) = slots.nodes first.arrays :=
    nodes_append closed
  have moved {slots : Forest} (closed : ∀ name ∈ slots.references, name ∈ second.names) :
      slots.nodes (first.arrays ++ second.arrays) =
        (slots.nodes second.arrays).map (Node.shift first.arrays.length) :=
    nodes_behind distinct closed apart
  have keptArrays : first.arrays.map (fun array =>
        (array.2.nodes (first.arrays ++ second.arrays)).toArray) =
      first.arrays.map fun array => (array.2.nodes first.arrays).toArray :=
    List.map_congr_left fun array member => by
      rw [kept (firstShares.references_of_mem member)]
  have movedArrays : second.arrays.map (fun array =>
        (array.2.nodes (first.arrays ++ second.arrays)).toArray) =
      (second.arrays.map fun array => (array.2.nodes second.arrays).toArray).map fun slots =>
        slots.map (Node.shift first.arrays.length) := by
    rw [List.map_map]
    apply List.map_congr_left
    intro array member
    rw [moved (secondShares.references_of_mem member), Function.comp_apply, List.map_toArray]
  rw [Table.concat, table_arrays_size, table, table, table, Table.mk.injEq]
  refine ⟨?_, ?_, rfl⟩
  · rw [nodes_concat, arrays_concat, kept firstShares.references_subset,
      moved secondShares.references_subset, List.map_toArray, List.append_toArray]
  · rw [arrays_concat, List.map_append, keptArrays, movedArrays, List.map_toArray,
      List.append_toArray]

end Forest

end InstructionTables.Dispatch
