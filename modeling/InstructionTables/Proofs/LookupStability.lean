import InstructionTables.Proofs.DispatchDepth

/-! How a lookup depends on more and on fewer fields. A walk ends at a handler, at a field outside
its array, or where the fields end, and only in the last case do further fields matter. Since an
array holds only arrays that were complete before it, the arrays of a walk have smaller and smaller
ids, so that no walk is longer than the arena. -/
namespace InstructionTables.Dispatch

/-! ## Walks -/

/-- How a walk ends. -/
inductive Ending where
  /-- A field selects a handler. -/
  | handler (id : HandlerId)
  /-- A field selects no slot. -/
  | outside
  /-- There are no more fields. -/
  | early
deriving DecidableEq, Repr

/-- The handler that a walk with this ending leads to. -/
def Ending.result (invalidHandler : HandlerId) : Ending → HandlerId
  | handler id => id
  | outside => invalidHandler
  | early => invalidHandler

/-- A walk along fields from the given slots, with the arrays that it passes through. -/
inductive Table.Walk (table : Table) : Array Node → List Nat → List ArrayId → Ending → Prop where
  | early {slots : Array Node} : Walk table slots [] [] .early
  | outside {slots : Array Node} {field : Nat} {fields : List Nat} :
      slots[field]? = none → Walk table slots (field :: fields) [] .outside
  | handler {slots : Array Node} {field : Nat} {fields : List Nat} {id : HandlerId} :
      slots[field]? = some (.handler id) → Walk table slots (field :: fields) [] (.handler id)
  | descend {slots children : Array Node} {field : Nat} {fields : List Nat} {id : ArrayId}
      {width : UInt32} {ids : List ArrayId} {ending : Ending} :
      slots[field]? = some (.array id width) → table.children? id = some children →
      Walk table children fields ids ending → Walk table slots (field :: fields) (id :: ids) ending

namespace Table.Walk

variable {table : Table} {slots : Array Node} {fields : List Nat} {ids : List ArrayId}
variable {ending : Ending}

/-- A walk leads where its ending says. -/
theorem walk?_eq (walk : table.Walk slots fields ids ending) :
    table.walk? slots fields = some (ending.result table.invalidHandler) := by
  induction walk with
  | early => rfl
  | outside absent =>
    rw [walk?, absent]
    rfl
  | handler held =>
    rw [walk?, held]
    rfl
  | descend held stored _ ih =>
    rw [walk?, held]
    simp only [stored]
    exact ih

/-- Fields behind the end of a walk do not matter, unless the walk has ended for want of them. -/
theorem append (walk : table.Walk slots fields ids ending) (complete : ending ≠ .early)
    (more : List Nat) : table.Walk slots (fields ++ more) ids ending := by
  induction walk with
  | early => exact absurd rfl complete
  | outside absent => exact .outside absent
  | handler held => exact .handler held
  | descend held stored _ ih => exact .descend held stored (ih complete)

/-- The arrays of a walk follow one another. -/
theorem chain (walk : table.Walk slots fields ids ending) : table.Chain slots ids := by
  induction walk with
  | early => exact .stop
  | outside _ => exact .stop
  | handler _ => exact .stop
  | @descend _ _ field _ _ _ _ _ held stored _ ih => exact .descend field held stored ih

end Table.Walk

/-! ## Walks through sound tables -/

namespace Table.Sound

variable {table : Table} {config : Config} {slots : Array Node}

/-- From sound slots there is a walk along any fields. -/
theorem exists_walk (sound : table.Sound config)
    (each : ∀ node ∈ slots, Node.Sound table config.handlerCount bound node) (fields : List Nat) :
    ∃ ids ending, table.Walk slots fields ids ending := by
  induction fields generalizing slots bound with
  | nil => exact ⟨[], .early, .early⟩
  | cons field fields ih =>
    cases held : slots[field]? with
    | none => exact ⟨[], .outside, .outside held⟩
    | some node =>
      cases node with
      | handler id => exact ⟨[], .handler id, .handler held⟩
      | array id width =>
        obtain ⟨-, children, stored, -⟩ := each _ (Array.mem_of_getElem? held)
        obtain ⟨ids, ending, walk⟩ := ih (sound.arrays id.index children stored)
        exact ⟨id :: ids, ending, .descend held stored walk⟩

/-- The ids of arrays that follow one another get smaller and smaller. -/
theorem chain_descends (sound : table.Sound config)
    (each : ∀ node ∈ slots, Node.Sound table config.handlerCount bound node)
    (chain : table.Chain slots ids) :
    (∀ id ∈ ids, id.index < bound) ∧ ids.length ≤ bound ∧
      ids.Pairwise fun earlier later => later.index < earlier.index := by
  induction chain generalizing bound with
  | stop => exact ⟨nofun, Nat.zero_le _, List.Pairwise.nil⟩
  | @descend _ children id _ ids field held stored _ ih =>
    -- An array holds only arrays before itself, so that its own id bounds those that follow.
    obtain ⟨inside, -⟩ := each _ (Array.mem_of_getElem? held)
    obtain ⟨below, short, descends⟩ := ih (sound.arrays id.index children stored)
    refine ⟨List.forall_mem_cons.mpr ⟨inside, ?_⟩, ?_, List.Pairwise.cons below descends⟩
    · intro later member
      exact (below later member).trans inside
    · rw [List.length_cons]
      omega

/-- No array follows itself. -/
theorem chain_nodup (sound : table.Sound config) (chain : table.Chain table.roots ids) :
    ids.Nodup := by
  obtain ⟨-, -, descends⟩ := sound.chain_descends sound.roots chain
  apply descends.imp
  rintro earlier _ smaller rfl
  exact Nat.lt_irrefl _ smaller

end Table.Sound

/-! ## Lookups -/

theorem Table.Walk.lookup_eq {table : Table}
    (walk : table.Walk table.roots fields ids ending) :
    table.lookup fields = ending.result table.invalidHandler := by
  rw [Table.lookup, Table.lookup?, walk.walk?_eq, Option.getD_some]

/-- A lookup leads where its walk ends. More fields change it only where the walk has ended for want
of fields, and no lookup looks at more than one field more than there are arrays, since no walk
comes to an array twice. -/
theorem ofBytes_ok_lookup_append {config : Config}
    (accepted : Table.ofBytes payload config = .ok table) (fields : List Nat) :
    (table.lookup fields ≠ table.invalidHandler →
      ∀ more, table.lookup (fields ++ more) = table.lookup fields) ∧
    (∀ ids, table.Walk table.roots fields ids .outside →
      ∀ more, table.lookup (fields ++ more) = table.invalidHandler) ∧
    table.lookup fields = table.lookup (fields.take (table.arrays.size + 1)) ∧
    (∃ ids ending, table.Walk table.roots fields ids ending) ∧
    ∀ ids ending, table.Walk table.roots fields ids ending →
      table.lookup fields = ending.result table.invalidHandler ∧ ids.Nodup := by
  have sound := (ofBytes_ok_sound accepted).1
  obtain ⟨ids, ending, walk⟩ := sound.exists_walk sound.roots fields
  refine ⟨?_, ?_, ?_, ⟨ids, ending, walk⟩, ?_⟩
  · intro valid more
    have complete : ending ≠ .early := by
      rintro rfl
      exact valid walk.lookup_eq
    rw [(walk.append complete more).lookup_eq, walk.lookup_eq]
  · intro passed outside more
    exact (outside.append nofun more).lookup_eq
  · have short : ∀ ids, table.Chain table.roots ids → ids.length ≤ table.arrays.size :=
      fun ids chain => (sound.chain_descends sound.roots chain).2.1
    rw [Table.lookup, Table.lookup, Table.lookup?, Table.lookup?, Table.walk?_take short]
  · intro passed reached other
    exact ⟨other.lookup_eq, sound.chain_nodup other.chain⟩

/-- Fields that lead through both arrays to a handler, and fields that leave the second one. -/
theorem ofBytes_ok_lookup_append_shared : ∃ table,
    Table.ofBytes [0x01, 0x00, 0xed, 0x1c,
        0x01, 0x02, 0x40, 0x00, 0x00, 0x01, 0x00, 0x00, 0x02, 0x00,
        0x01, 0x00, 0x40, 0x00,
        0x01, 0x01, 0x07, 0x00, 0x01, 0x00, 0x40, 0x00] ⟨3, 3, {}⟩ = .ok table ∧
      table.lookup [2, 0, 1] = ⟨2⟩ ∧ (∀ more, table.lookup ([2, 0, 1] ++ more) = ⟨2⟩) ∧
      (∀ more, table.lookup ([2, 0, 5] ++ more) = ⟨0⟩) ∧
      table.lookup [2, 0, 1, 4, 7] = table.lookup [2, 0, 1] ∧
      table.Walk table.roots [2, 0, 1] [⟨1⟩, ⟨0⟩] (.handler ⟨2⟩) := by
  have accepted : Table.ofBytes [0x01, 0x00, 0xed, 0x1c,
      0x01, 0x02, 0x40, 0x00, 0x00, 0x01, 0x00, 0x00, 0x02, 0x00,
      0x01, 0x00, 0x40, 0x00,
      0x01, 0x01, 0x07, 0x00, 0x01, 0x00, 0x40, 0x00] ⟨3, 3, {}⟩ =
        .ok ⟨#[.array ⟨0⟩ 2, .array ⟨0⟩ 2, .array ⟨1⟩ 1],
          #[#[.handler ⟨1⟩, .handler ⟨2⟩], #[.array ⟨0⟩ 2]], {}⟩ := by
    decide +kernel
  obtain ⟨stable, -⟩ := ofBytes_ok_lookup_append accepted [2, 0, 1]
  obtain ⟨-, missed, -⟩ := ofBytes_ok_lookup_append accepted [2, 0, 5]
  obtain ⟨-, -, bounded, -⟩ := ofBytes_ok_lookup_append accepted [2, 0, 1, 4, 7]
  refine ⟨_, accepted, rfl, stable (by decide), missed [⟨1⟩, ⟨0⟩] ?_, bounded, ?_⟩
  · exact .descend rfl rfl (.descend rfl rfl (.outside rfl))
  · exact .descend rfl rfl (.descend rfl rfl (.handler rfl))

end InstructionTables.Dispatch
