import InstructionTables.Dispatch.Build
import InstructionTables.Proofs.ItemSpelling
import Mathlib.Data.Fintype.Card
import Mathlib.Data.List.Nodup

/-! Dispatch payloads as forests. A forest lists slots, and a slot that defines an array holds
the forest of its slots, so that the order of the payload is the order of a walk through the
forest. The names, the depth and the table of a forest are read off its shape, without a
payload and without an arena. -/
namespace InstructionTables.Dispatch

/-- A list of slots. Each constructor but the first is a slot followed by the others. -/
inductive Forest where
  | nil
  /-- A slot with a handler. -/
  | handler (id : UInt16) (rest : Forest)
  /-- A slot with an array of its own, which the payload calls `reference`. -/
  | define (reference : UInt16) (slots rest : Forest)
  /-- A slot with the array that the payload has called `reference` before. -/
  | share (reference : UInt16) (rest : Forest)
deriving DecidableEq, Repr

/-- No way to write a record is shorter than a tag and a reference. -/
theorem Record.minSize_le {record : Record} (spells : Item.Spells record.items bytes) :
    minSize ≤ bytes.length := by
  cases record with
  | handler id =>
    obtain ⟨_, _, rfl, rfl, named⟩ := Item.spells_cons_iff.mp spells
    obtain rfl := Item.spells_singleton_iff.mp named
    exact Nat.le_refl 3
  | array size reference =>
    obtain ⟨_, _, rfl, rfl, more⟩ := Item.spells_cons_iff.mp spells
    obtain ⟨_, _, rfl, sized, named⟩ := Item.spells_cons_iff.mp more
    obtain rfl := Item.spells_singleton_iff.mp named
    have positive := Varint.Spelling.length_pos sized
    simp only [Item.encode, List.length_append, List.length_cons, List.length_nil, minSize]
    omega

/-- There are no more names than a reference has values. -/
theorem length_le_of_nodup {references : List UInt16} (distinct : references.Nodup) :
    references.length ≤ 2 ^ 16 := by
  have values : (references.map UInt16.toFin).Nodup :=
    distinct.map fun _ _ => UInt16.toFin_inj.mp
  have bound := values.length_le_card
  rwa [List.length_map, Fintype.card_fin] at bound

theorem index_ofIndex (small : position < 2 ^ 16) : (ArrayId.ofIndex position).index = position :=
  UInt32.toNat_ofNat_of_lt (small.trans (by decide))

/-- The size of an array that is defined is not the mark of a shared one. -/
theorem size_ne_zero {count : Nat} (size : 0 < count ∧ count < 2 ^ 32) :
    UInt32.ofNat count ≠ 0 := by
  intro zero
  have countEq : (UInt32.ofNat count).toNat = count := UInt32.toNat_ofNat_of_lt size.2
  rw [zero] at countEq
  exact absurd countEq.symm size.1.ne'

namespace Forest

/-- The number of slots, those of its arrays not counted. -/
def width : Forest → Nat
  | nil => 0
  | handler _ rest => rest.width + 1
  | define _ _ rest => rest.width + 1
  | share _ rest => rest.width + 1

/-- The records of the slots, where the slots of an array come right after the array. -/
def records : Forest → List Record
  | nil => []
  | handler id rest => .handler id :: rest.records
  | define reference slots rest =>
    .array (UInt32.ofNat slots.width) reference :: (slots.records ++ rest.records)
  | share reference rest => .array 0 reference :: rest.records

/-- The items that the slots are written as. -/
def items (forest : Forest) : List Item :=
  forest.records.flatMap Record.items

theorem items_handler {id : UInt16} :
    (handler id rest).items = (Record.handler id).items ++ rest.items := rfl

theorem items_share : (share reference rest).items =
    (Record.array 0 reference).items ++ rest.items := rfl

theorem items_define : (define reference slots rest).items =
    (Record.array (UInt32.ofNat slots.width) reference).items ++ (slots.items ++ rest.items) := by
  rw [items, records, List.flatMap_cons, List.flatMap_append]
  rfl

/-- The bytes that list the slots, where the sizes may be written with zero groups after them. -/
inductive Listing : Forest → List UInt8 → Prop where
  | nil : Listing nil []
  | handler {id : UInt16} {rest : Forest} {others : List UInt8} : Listing rest others →
      Listing (handler id rest) (0x00 :: id.toUInt8 :: (id >>> 8).toUInt8 :: others)
  | define {reference : UInt16} {slots rest : Forest} {size inner others : List UInt8} :
      Varint.Spelling (UInt32.ofNat slots.width) size → Listing slots inner → Listing rest others →
      Listing (define reference slots rest)
        (0x01 :: size ++ [reference.toUInt8, (reference >>> 8).toUInt8] ++ inner ++ others)
  | share {reference : UInt16} {rest : Forest} {size others : List UInt8} :
      Varint.Spelling 0 size → Listing rest others →
      Listing (share reference rest)
        (0x01 :: size ++ [reference.toUInt8, (reference >>> 8).toUInt8] ++ others)

theorem handler_spells_iff {id : UInt16} :
    Item.Spells (Record.handler id).items bytes ↔
      bytes = [0x00, id.toUInt8, (id >>> 8).toUInt8] := by
  simp only [Record.items, Item.spells_cons_iff, Item.spells_nil_iff]
  constructor
  · rintro ⟨_, _, rfl, rfl, _, _, rfl, rfl, rfl⟩
    rfl
  · rintro rfl
    exact ⟨[0x00], _, rfl, rfl, _, [], rfl, rfl, rfl⟩

theorem array_spells_iff {size : UInt32} {reference : UInt16} :
    Item.Spells (Record.array size reference).items bytes ↔
      ∃ first, Varint.Spelling size first ∧
        bytes = 0x01 :: first ++ [reference.toUInt8, (reference >>> 8).toUInt8] := by
  simp only [Record.items, Item.spells_cons_iff, Item.spells_nil_iff]
  constructor
  · rintro ⟨_, _, rfl, rfl, first, _, rfl, sized, _, _, rfl, rfl, rfl⟩
    exact ⟨first, sized, rfl⟩
  · rintro ⟨first, sized, rfl⟩
    exact ⟨[0x01], _, rfl, rfl, first, _, rfl, sized, _, [], rfl, rfl, rfl⟩

/-- The bytes that list the slots are the ways to write their records. -/
theorem listing_iff {forest : Forest} : Listing forest bytes ↔ Item.Spells forest.items bytes := by
  constructor
  · intro listing
    induction listing with
    | nil => exact Item.Spells.nil
    | handler _ ih =>
      rw [items_handler, Item.spells_append_iff]
      exact ⟨_, _, rfl, handler_spells_iff.mpr rfl, ih⟩
    | define sized _ _ inner ih =>
      rw [items_define, Item.spells_append_iff]
      refine ⟨_, _, List.append_assoc _ _ _, array_spells_iff.mpr ⟨_, sized, rfl⟩, ?_⟩
      exact Item.spells_append_iff.mpr ⟨_, _, rfl, inner, ih⟩
    | share sized _ ih =>
      rw [items_share, Item.spells_append_iff]
      exact ⟨_, _, rfl, array_spells_iff.mpr ⟨_, sized, rfl⟩, ih⟩
  · intro spells
    induction forest generalizing bytes with
    | nil =>
      obtain rfl := Item.spells_nil_iff.mp spells
      exact Listing.nil
    | handler id rest ih =>
      obtain ⟨_, _, rfl, opening, others⟩ := Item.spells_append_iff.mp spells
      obtain rfl := handler_spells_iff.mp opening
      exact Listing.handler (ih others)
    | define reference slots rest inner ih =>
      rw [items_define] at spells
      obtain ⟨_, _, rfl, opening, spells⟩ := Item.spells_append_iff.mp spells
      obtain ⟨_, _, rfl, children, others⟩ := Item.spells_append_iff.mp spells
      obtain ⟨_, sized, rfl⟩ := array_spells_iff.mp opening
      rw [← List.append_assoc]
      exact Listing.define sized (inner children) (ih others)
    | share reference rest ih =>
      obtain ⟨_, _, rfl, opening, others⟩ := Item.spells_append_iff.mp spells
      obtain ⟨_, sized, rfl⟩ := array_spells_iff.mp opening
      exact Listing.share sized (ih others)

/-- Every slot takes at least the bytes of one record. -/
theorem minSize_mul_width_le {forest : Forest} (spells : Item.Spells forest.items bytes) :
    Record.minSize * forest.width ≤ bytes.length := by
  induction forest generalizing bytes with
  | nil => exact Nat.zero_le _
  | handler id rest ih =>
    rw [items_handler, Item.spells_append_iff] at spells
    obtain ⟨first, later, rfl, opening, spells⟩ := spells
    have least := Record.minSize_le opening
    have others := ih spells
    rw [width, Nat.mul_succ, List.length_append]
    omega
  | define reference slots rest _ ih =>
    rw [items_define, Item.spells_append_iff] at spells
    obtain ⟨first, later, rfl, opening, spells⟩ := spells
    obtain ⟨inner, last, rfl, -, spells⟩ := Item.spells_append_iff.mp spells
    have least := Record.minSize_le opening
    have others := ih spells
    rw [width, Nat.mul_succ, List.length_append, List.length_append]
    omega
  | share reference rest ih =>
    rw [items_share, Item.spells_append_iff] at spells
    obtain ⟨first, later, rfl, opening, spells⟩ := spells
    have least := Record.minSize_le opening
    have others := ih spells
    rw [width, Nat.mul_succ, List.length_append]
    omega

/-- The payload of a table with these slots. -/
def payload (forest : Forest) : List UInt8 :=
  (Header.ofKind .decoder).payload forest.items

/-- The arrays that are defined, with their names, in the order in which they are complete. -/
def arrays : Forest → List (UInt16 × Forest)
  | nil => []
  | handler _ rest => rest.arrays
  | define reference slots rest => slots.arrays ++ (reference, slots) :: rest.arrays
  | share _ rest => rest.arrays

/-- The names of the arrays that are defined. -/
def names (forest : Forest) : List UInt16 :=
  forest.arrays.map Prod.fst

/-- The handlers of all slots, those of arrays included. -/
def handlers : Forest → List UInt16
  | nil => []
  | handler id rest => id :: rest.handlers
  | define _ slots rest => slots.handlers ++ rest.handlers
  | share _ rest => rest.handlers

/-- The most arrays that are defined inside one another. -/
def depth : Forest → Nat
  | nil => 0
  | handler _ rest => rest.depth
  | define _ slots rest => max (slots.depth + 1) rest.depth
  | share _ rest => rest.depth

/-- Every shared array is complete where it is used, given the names that are complete before
the first slot. -/
def Scoped : List UInt16 → Forest → Prop
  | _, nil => True
  | known, handler _ rest => rest.Scoped known
  | known, define reference slots rest =>
    slots.Scoped known ∧ rest.Scoped (known ++ slots.names ++ [reference])
  | known, share reference rest => reference ∈ known ∧ rest.Scoped known

instance decidableScoped : (known : List UInt16) → (forest : Forest) →
    Decidable (forest.Scoped known)
  | _, nil => isTrue trivial
  | known, handler _ rest => decidableScoped known rest
  | known, define reference slots rest =>
    have := decidableScoped known slots
    have := decidableScoped (known ++ slots.names ++ [reference]) rest
    inferInstanceAs (Decidable (_ ∧ _))
  | known, share _ rest =>
    have := decidableScoped known rest
    inferInstanceAs (Decidable (_ ∧ _))

/-- What a payload has to keep to, given the names that are complete before the first slot and
the number of arrays that may be nested. -/
structure Fits (config : Config) (levels : Nat) (known : List UInt16) (forest : Forest) :
    Prop where
  /-- Every handler exists. -/
  handlers : ∀ id ∈ forest.handlers, id.toNat < config.handlerCount
  /-- No array is empty, and its width fits a word. -/
  widths : ∀ array ∈ forest.arrays, 0 < array.2.width ∧ array.2.width < 2 ^ 32
  nested : forest.depth ≤ levels
  /-- No name is given twice. -/
  distinct : (known ++ forest.names).Nodup
  shares : forest.Scoped known

variable {config : Config} {levels : Nat} {known : List UInt16}

instance decidableFits {forest : Forest} : Decidable (forest.Fits config levels known) :=
  decidable_of_iff
    ((forest.handlers.all fun id => id.toNat < config.handlerCount) ∧
      (forest.arrays.all fun array => 0 < array.2.width ∧ array.2.width < 2 ^ 32) ∧
      forest.depth ≤ levels ∧ (known ++ forest.names).Nodup ∧ forest.Scoped known) <| by
    simp only [List.all_eq_true, decide_eq_true_eq]
    constructor
    · rintro ⟨handlers, widths, nested, distinct, shares⟩
      exact ⟨handlers, widths, nested, distinct, shares⟩
    · intro fits
      exact ⟨fits.handlers, fits.widths, fits.nested, fits.distinct, fits.shares⟩

theorem fits_nil_iff : nil.Fits config levels known ↔ known.Nodup := by
  constructor
  · intro fits
    simpa [names, arrays] using fits.distinct
  · intro distinct
    exact ⟨nofun, nofun, Nat.zero_le _, by simpa [names, arrays] using distinct, trivial⟩

theorem fits_handler_iff {id : UInt16} : (handler id rest).Fits config levels known ↔
    id.toNat < config.handlerCount ∧ rest.Fits config levels known := by
  constructor
  · intro fits
    exact ⟨fits.handlers id List.mem_cons_self,
      fun other member => fits.handlers other (List.mem_cons_of_mem _ member), fits.widths,
      fits.nested, fits.distinct, fits.shares⟩
  · rintro ⟨known, fits⟩
    exact ⟨List.forall_mem_cons.mpr ⟨known, fits.handlers⟩, fits.widths, fits.nested,
      fits.distinct, fits.shares⟩

theorem fits_share_iff : (share reference rest).Fits config levels known ↔
    reference ∈ known ∧ rest.Fits config levels known := by
  constructor
  · intro fits
    exact ⟨fits.shares.1, fits.handlers, fits.widths, fits.nested, fits.distinct, fits.shares.2⟩
  · rintro ⟨member, fits⟩
    exact ⟨fits.handlers, fits.widths, fits.nested, fits.distinct, member, fits.shares⟩

theorem arrays_define : (define reference slots rest).arrays =
    slots.arrays ++ [(reference, slots)] ++ rest.arrays := by
  simp [arrays]

theorem names_define : (define reference slots rest).names =
    slots.names ++ reference :: rest.names := by
  simp [names, arrays]

/-- An array needs a level of its own and a name that is new after its slots. -/
theorem fits_define_iff : (define reference slots rest).Fits config levels known ↔
    ∃ below, levels = below + 1 ∧ (0 < slots.width ∧ slots.width < 2 ^ 32) ∧
      slots.Fits config below known ∧ reference ∉ known ++ slots.names ∧
      rest.Fits config levels (known ++ slots.names ++ [reference]) := by
  have order : known ++ (define reference slots rest).names =
      known ++ slots.names ++ [reference] ++ rest.names := by
    simp [names_define]
  constructor
  · intro fits
    have distinct := fits.distinct
    rw [order] at distinct
    have opening := (List.nodup_append.mp distinct).1
    have inner := (List.nodup_append.mp opening).1
    have fresh : reference ∉ known ++ slots.names := by
      intro member
      exact (List.nodup_append.mp opening).2.2 reference member reference (by simp) rfl
    obtain ⟨slotsNested, restNested⟩ := Nat.max_le.mp fits.nested
    obtain ⟨slotsShares, restShares⟩ := fits.shares
    have handlers := List.forall_mem_append.mp fits.handlers
    have widths := List.forall_mem_append.mp fits.widths
    have later := List.forall_mem_cons.mp widths.2
    refine ⟨levels - 1, by omega, later.1, ?_, fresh, ?_⟩
    · exact ⟨handlers.1, widths.1, by omega, inner, slotsShares⟩
    · exact ⟨handlers.2, later.2, restNested, distinct, restShares⟩
  · rintro ⟨below, rfl, width, slotsFit, fresh, restFit⟩
    refine ⟨?_, ?_, ?_, ?_, slotsFit.shares, restFit.shares⟩
    · exact List.forall_mem_append.mpr ⟨slotsFit.handlers, restFit.handlers⟩
    · exact List.forall_mem_append.mpr
        ⟨slotsFit.widths, List.forall_mem_cons.mpr ⟨width, restFit.widths⟩⟩
    · exact Nat.max_le.mpr ⟨Nat.succ_le_succ slotsFit.nested, restFit.nested⟩
    · rw [order]
      exact restFit.distinct

/-! ## Nodes -/

/-- The node of an array, where the position of its name is its id. -/
def node (complete : List (UInt16 × Forest)) (reference : UInt16) : Node :=
  let position := (complete.map Prod.fst).idxOf reference
  .array (.ofIndex position) (UInt32.ofNat
    ((complete[position]?.map fun array => array.2.width).getD 0))

/-- The nodes of the slots. -/
def nodes (complete : List (UInt16 × Forest)) : Forest → List Node
  | nil => []
  | handler id rest => .handler ⟨id⟩ :: rest.nodes complete
  | define reference _ rest => node complete reference :: rest.nodes complete
  | share reference rest => node complete reference :: rest.nodes complete

/-- The table with these slots. -/
def table (forest : Forest) (invalidHandler : HandlerId) : Table where
  roots := (forest.nodes forest.arrays).toArray
  arrays := (forest.arrays.map fun array => (array.2.nodes forest.arrays).toArray).toArray
  invalidHandler

/-- The names that the slots themselves have, whether they define them or not. -/
def references : Forest → List UInt16
  | nil => []
  | handler _ rest => rest.references
  | define reference _ rest => reference :: rest.references
  | share reference rest => reference :: rest.references

variable {complete more : List (UInt16 × Forest)}

theorem nodes_length (forest : Forest) : (forest.nodes complete).length = forest.width := by
  induction forest with
  | nil => rfl
  | handler id rest ih => simpa [nodes, width] using ih
  | define reference slots rest _ ih => simpa [nodes, width] using ih
  | share reference rest ih => simpa [nodes, width] using ih

theorem table_arrays_size (forest : Forest) (invalidHandler : HandlerId) :
    (forest.table invalidHandler).arrays.size = forest.arrays.length := by
  rw [table, List.size_toArray, List.length_map]

/-- Arrays that are defined later change no node of a name that is defined already. -/
theorem node_append (member : reference ∈ complete.map Prod.fst) :
    node (complete ++ more) reference = node complete reference := by
  have inside : (complete.map Prod.fst).idxOf reference < complete.length := by
    simpa using List.idxOf_lt_length_of_mem member
  simp only [node, List.map_append, List.idxOf_append_of_mem member,
    List.getElem?_append_left inside]

/-- The array that was defined last has the last position. -/
theorem node_last (fresh : reference ∉ complete.map Prod.fst) :
    node (complete ++ [(reference, slots)]) reference =
      .array (.ofIndex complete.length) (UInt32.ofNat slots.width) := by
  have position : ((complete ++ [(reference, slots)]).map Prod.fst).idxOf reference =
      complete.length := by
    rw [List.map_append, List.idxOf_append_of_notMem fresh]
    simp
  simp only [node, position, List.getElem?_concat_length, Option.map_some, Option.getD_some]

/-- An array has those before it in front and those after it behind. -/
theorem split_at (found : complete[position]? = some array) :
    complete = complete.take position ++ array :: complete.drop (position + 1) := by
  obtain ⟨_, rfl⟩ := List.getElem?_eq_some_iff.mp found
  rw [List.getElem_cons_drop, List.take_append_drop]

theorem length_le_of_distinct (distinct : (complete.map Prod.fst).Nodup) :
    complete.length ≤ 2 ^ 16 := by
  have bound := length_le_of_nodup distinct
  rwa [List.length_map] at bound

/-- The node of an array has its position and its width. -/
theorem node_of_getElem? (distinct : (complete.map Prod.fst).Nodup)
    (found : complete[position]? = some (reference, slots)) :
    position < 2 ^ 16 ∧
      node complete reference = .array (.ofIndex position) (UInt32.ofNat slots.width) := by
  obtain ⟨bound, held⟩ := List.getElem?_eq_some_iff.mp found
  have inside : position < (complete.map Prod.fst).length := by rwa [List.length_map]
  have positionEq : (complete.map Prod.fst).idxOf reference = position := by
    have same := List.get_idxOf distinct ⟨position, inside⟩
    rwa [List.get_eq_getElem, List.getElem_map, held] at same
  refine ⟨lt_of_lt_of_le bound (length_le_of_distinct distinct), ?_⟩
  simp only [node, positionEq, found, Option.map_some, Option.getD_some]

theorem nodes_append {forest : Forest}
    (closed : ∀ reference ∈ forest.references, reference ∈ complete.map Prod.fst) :
    forest.nodes (complete ++ more) = forest.nodes complete := by
  induction forest with
  | nil => rfl
  | handler id rest ih => simp only [nodes, ih closed]
  | define reference slots rest _ ih =>
    obtain ⟨first, others⟩ := List.forall_mem_cons.mp closed
    simp only [nodes, node_append first, ih others]
  | share reference rest ih =>
    obtain ⟨first, others⟩ := List.forall_mem_cons.mp closed
    simp only [nodes, node_append first, ih others]

/-- The names of slots are known before them or defined among them. -/
theorem Scoped.references_subset {forest : Forest} (shares : forest.Scoped known) :
    ∀ reference ∈ forest.references, reference ∈ known ++ forest.names := by
  induction forest generalizing known with
  | nil => nofun
  | handler id rest ih => exact ih shares
  | define name slots rest _ ih =>
    intro reference member
    rw [names_define]
    rcases List.mem_cons.mp member with rfl | later
    · simp
    · have found := ih shares.2 reference later
      simpa [or_assoc] using found
  | share name rest ih =>
    intro reference member
    rcases List.mem_cons.mp member with rfl | later
    · exact List.mem_append_left _ shares.1
    · exact ih shares.2 reference later

end Forest

end InstructionTables.Dispatch
