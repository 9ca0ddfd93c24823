import InstructionTables.Proofs.VarintSpelling
import Mathlib.Algebra.BigOperators.Ring.Finset

/-! Reading a number, in plain arithmetic. The high bits of the bytes tell where a number ends, and
the number is the exact sum of the seven lower bits of each byte, every group worth 128 times the
one before it. The main statement says which bytes are read as a number, which end too early and
which are refused, and that bytes which come later matter only to those that end too early. -/
namespace InstructionTables.Varint

/-- The exact sum of the groups in the first bytes, the lowest group first. -/
def groupSum (bytes : List UInt8) (length : Nat) : Nat :=
  ∑ position ∈ Finset.range length, (bytes.getD position 0 &&& 0x7f).toNat * 2 ^ (7 * position)

/-- The first bytes are a number that fits a word: all of them but the last one have the high
bit, and none of them is missing. -/
structure StartsWith (bytes : List UInt8) (value : UInt32) (length : Nat) : Prop where
  positive : 1 ≤ length
  short : length ≤ 5
  inside : length ≤ bytes.length
  continued : ∀ byte ∈ bytes.take (length - 1), 0x80 ≤ byte
  last : ∃ byte, bytes[length - 1]? = some byte ∧ byte < 0x80
  fits : groupSum bytes length < 2 ^ 32
  sum : value.toNat = groupSum bytes length

/-! ## Groups by their positions -/

/-- The first group stands apart from the others, which are each worth 128 times as much as among
themselves. -/
theorem groupSum_cons (byte : UInt8) (bytes : List UInt8) (length : Nat) :
    groupSum (byte :: bytes) (length + 1) = byte.toNat % 128 + 128 * groupSum bytes length := by
  have low : (byte &&& 0x7f).toNat = byte.toNat % 128 := by
    rw [← low_toNat, UInt8.toNat_toUInt32]
  rw [groupSum, Finset.sum_range_succ', groupSum, Finset.mul_sum, add_comm]
  congr 1
  · simpa using low
  · refine Finset.sum_congr rfl fun position _ => ?_
    rw [List.getD_cons_succ, Nat.mul_succ, pow_add]
    ring

/-- The first bytes are groups exactly if all of them but the last one are continued. -/
theorem groups_take_iff {bytes : List UInt8} {length number : Nat}
    (inside : length ≤ bytes.length) : Groups (bytes.take length) number ↔
      1 ≤ length ∧ (∀ byte ∈ bytes.take (length - 1), 0x80 ≤ byte) ∧
        (∃ byte, bytes[length - 1]? = some byte ∧ byte < 0x80) ∧
        number = groupSum bytes length := by
  have empty (number : Nat) : ¬ Groups [] number := nofun
  induction bytes generalizing length number with
  | nil =>
    obtain rfl := Nat.le_zero.mp inside
    simp [empty]
  | cons byte rest ih =>
    have bound := byte.toNat_lt
    have continued : 0x80 ≤ byte ↔ 128 ≤ byte.toNat := UInt8.le_iff_toNat_le
    have last : byte < 0x80 ↔ byte.toNat < 128 := UInt8.lt_iff_toNat_lt
    match length with
    | 0 => simp [empty]
    | 1 =>
      -- The only byte is the last one.
      have sum : groupSum (byte :: rest) 1 = byte.toNat % 128 := groupSum_cons byte rest 0
      rw [List.take_succ_cons, List.take_zero, groups_cons_iff, sum]
      constructor
      · rintro (⟨small, -, rfl⟩ | ⟨-, high, none, -⟩)
        · exact ⟨Nat.le_refl 1, by simp, ⟨byte, rfl, last.mpr small⟩, (Nat.mod_eq_of_lt small).symm⟩
        · exact absurd none (empty high)
      · rintro ⟨-, -, ⟨_, found, small⟩, rfl⟩
        obtain rfl := Option.some.inj found
        rw [last] at small
        exact Or.inl ⟨small, rfl, Nat.mod_eq_of_lt small⟩
    | length + 2 =>
      have others : rest.take (length + 1) ≠ [] := by
        rw [← List.length_pos_iff, List.length_take]
        simp only [List.length_cons] at inside
        omega
      rw [List.take_succ_cons, groups_cons_iff, groupSum_cons]
      simp only [others, false_and, and_false, false_or, ih (Nat.le_of_succ_le_succ inside),
        Nat.succ_sub_one, List.take_succ_cons, List.forall_mem_cons,
        List.getElem?_cons_succ, continued]
      constructor
      · rintro ⟨large, high, ⟨-, more, ends, rfl⟩, rfl⟩
        exact ⟨Nat.le_add_left _ _, ⟨large, more⟩, ends, by omega⟩
      · rintro ⟨-, ⟨large, more⟩, ends, rfl⟩
        exact ⟨large, _, ⟨Nat.le_add_left _ _, more, ends, rfl⟩, by omega⟩

/-! ## Reading -/

/-- A number is read exactly from the bytes that start with it. -/
theorem decode_eq_value_iff_startsWith {bytes : List UInt8} :
    decode bytes = .value value length ↔ StartsWith bytes value length := by
  rw [decode_eq_value_iff]
  constructor
  · rintro ⟨first, rest, rfl, spelled, rfl⟩
    obtain ⟨groups, short⟩ := spelling_iff.mp spelled
    have inside : first.length ≤ (first ++ rest).length := by simp
    have taken : (first ++ rest).take first.length = first := List.take_left
    rw [← taken, groups_take_iff inside] at groups
    obtain ⟨positive, continued, last, sum⟩ := groups
    exact { positive, short, inside, continued, last, sum, fits := sum ▸ value.toNat_lt }
  · intro starts
    have groups : Groups (bytes.take length) value.toNat := (groups_take_iff starts.inside).mpr
      ⟨starts.positive, starts.continued, starts.last, starts.sum⟩
    have taken : (bytes.take length).length = length := List.length_take_of_le starts.inside
    have spelled : Spelling value (bytes.take length) := by
      rw [spelling_iff, taken]
      exact ⟨groups, starts.short⟩
    exact ⟨bytes.take length, bytes.drop length, (List.take_append_drop length bytes).symm, spelled,
      taken.symm⟩

/-- Bytes are read as a number exactly if they start with one of at most five bytes that fits a
word, more bytes are asked for exactly if there are fewer than five and all of them are continued,
and all other bytes are refused. Bytes that follow change what is read only where more were asked
for. -/
theorem decode_iff (bytes : List UInt8) :
    (∀ value length, decode bytes = .value value length ↔ StartsWith bytes value length) ∧
    (decode bytes = .incomplete ↔ bytes.length < 5 ∧ ∀ byte ∈ bytes, 0x80 ≤ byte) ∧
    (decode bytes = .overflow ↔
      (¬ ∃ value length, StartsWith bytes value length) ∧
        ¬ (bytes.length < 5 ∧ ∀ byte ∈ bytes, 0x80 ≤ byte)) ∧
    (decode bytes ≠ .incomplete → ∀ more, decode (bytes ++ more) = decode bytes) := by
  have ends : decode bytes = .incomplete ↔ bytes.length < 5 ∧ ∀ byte ∈ bytes, 0x80 ≤ byte :=
    decode_eq_incomplete_iff
  refine ⟨fun value length => decode_eq_value_iff_startsWith, ends, ?_, decode_append⟩
  simp only [← decode_eq_value_iff_startsWith, ← ends]
  cases decode bytes <;> simp

end InstructionTables.Varint
