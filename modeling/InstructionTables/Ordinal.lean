/-! Dense enumerations: the values of a type, numbered from zero without holes, each under
one canonical name. A tag is such an enumeration that a payload stores as a single byte.
The main statements say that a value is found again under its ordinal, that nothing else
is found there, and that the same holds of tags and their bytes. -/
namespace InstructionTables

/-- A type whose values are numbered in the order in which `values` lists them. -/
class Ordinal (α : Type) where
  /-- All values, in ordinal order. -/
  values : List α
  /-- The position of a value in `values`. -/
  ordinal : α → Nat
  /-- The canonical name of a value. -/
  name : α → String
  /-- No value is left out. -/
  complete : ∀ value, value ∈ values
  /-- Ordinals start at zero and have no holes. -/
  dense : values.map ordinal = List.range values.length

namespace Ordinal

/-- The number of values. -/
def count (α : Type) [Ordinal α] : Nat :=
  (values : List α).length

/-- The canonical names, in ordinal order. -/
def names (α : Type) [Ordinal α] : List String :=
  (values : List α).map name

/-- The value with the given ordinal, if there is one. -/
def ofOrdinal? {α : Type} [Ordinal α] (position : Nat) : Option α :=
  (values : List α)[position]?

/-- The value with the given canonical name, if there is one. -/
def ofName? {α : Type} [Ordinal α] (text : String) : Option α :=
  (values : List α).find? fun value => name value == text

/-- The canonical name for an ordinal, or the ordinal in decimal where no value has it. -/
def nameOrDecimal (α : Type) [Ordinal α] (position : Nat) : String :=
  match (ofOrdinal? position : Option α) with
  | some value => name value
  | none => toString position

variable {α : Type} [Ordinal α]

/-- The value found at a position has that position as its ordinal. -/
theorem ordinal_eq_of_ofOrdinal? {position : Nat} {value : α}
    (found : ofOrdinal? position = some value) : ordinal value = position := by
  obtain ⟨bound, rfl⟩ := List.getElem?_eq_some_iff.1 found
  have listed : ((values : List α).map ordinal)[position]? = some position := by
    rw [dense, List.getElem?_range bound]
  simpa [bound] using listed

/-- Every value is found again under its ordinal. -/
@[simp] theorem ofOrdinal?_ordinal (value : α) : ofOrdinal? (ordinal value) = some value := by
  obtain ⟨position, bound, held⟩ := List.getElem_of_mem (complete value)
  have found : ofOrdinal? position = some value :=
    List.getElem?_eq_some_iff.2 ⟨bound, held⟩
  rw [ordinal_eq_of_ofOrdinal? found, found]

/-- An ordinal finds a value exactly when it is that value's own. -/
theorem ofOrdinal?_eq_some_iff {position : Nat} {value : α} :
    ofOrdinal? position = some value ↔ ordinal value = position :=
  ⟨ordinal_eq_of_ofOrdinal?, fun same => same ▸ ofOrdinal?_ordinal value⟩

/-- Exactly the numbers from the count on belong to no value. -/
theorem ofOrdinal?_eq_none_iff {position : Nat} :
    (ofOrdinal? position : Option α) = none ↔ count α ≤ position :=
  List.getElem?_eq_none_iff

theorem ordinal_lt_count (value : α) : ordinal value < count α := by
  have found := ofOrdinal?_ordinal value
  obtain ⟨bound, -⟩ := List.getElem?_eq_some_iff.1 found
  exact bound

end Ordinal

/-- A dense enumeration that a payload stores as one byte, its ordinal. -/
class Tag (α : Type) extends Ordinal α where
  /-- The name under which a fault reports a byte that is no tag of this type. -/
  label : String
  /-- Every ordinal fits a byte. -/
  fits : values.length ≤ 256

namespace Tag

variable {α : Type} [Tag α]

/-- The byte that stands for a tag. -/
def byte (value : α) : UInt8 :=
  UInt8.ofNat (Ordinal.ordinal value)

/-- The tag that a byte stands for, if any. -/
def ofByte? (value : UInt8) : Option α :=
  Ordinal.ofOrdinal? value.toNat

theorem toNat_byte (value : α) : (byte value).toNat = Ordinal.ordinal value := by
  have bound := Ordinal.ordinal_lt_count value
  have room : Ordinal.count α ≤ 256 := fits
  exact UInt8.toNat_ofNat_of_lt (by simp only [UInt8.size]; omega)

@[simp] theorem ofByte?_byte (value : α) : ofByte? (byte value) = some value := by
  simp [ofByte?, toNat_byte]

/-- A byte is read as a tag exactly when the tag is written as that byte. -/
theorem ofByte?_eq_some_iff {stored : UInt8} {value : α} :
    ofByte? stored = some value ↔ byte value = stored := by
  rw [ofByte?, Ordinal.ofOrdinal?_eq_some_iff, ← toNat_byte, UInt8.toNat_inj]

end Tag

end InstructionTables
