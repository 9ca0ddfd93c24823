import InstructionTables.Payload.Item
import InstructionTables.Proofs.VarintSpelling
import Mathlib.Data.List.ModifyLast
import Mathlib.Order.Bounds.Defs

/-! Writing a number takes as few bytes as it can. A value that is below a power of 128 takes no
more bytes than the exponent says, and every other way to write it is longer: the last byte is
continued, zero groups follow, and the value stays what it was. The main statement says this of
writing behind any bytes and of reading any bytes. -/
namespace InstructionTables.Varint

/-- The bytes that are there stay as they are, and those of the shortest form come after them. -/
theorem push_eq (written : List UInt8) (value : UInt32) :
    push written value = written ++ encode value := by
  induction written, value using push.induct with
  | case1 written value small => rw [push, encode_eq, if_pos small, if_pos small]
  | case2 written value large ih =>
    rw [push, encode_eq, if_neg large, if_neg large, ih, List.append_assoc, List.singleton_append]

/-! ## Lengths -/

theorem encode_length_pos (value : UInt32) : 0 < (encode value).length :=
  (spelling_encode value).length_pos

/-- So many bytes are enough exactly if the value fits the seven bits that each of them has. -/
theorem encode_length_le_iff {length : Nat} (value : UInt32) :
    (encode value).length ≤ length ↔ 1 ≤ length ∧ value.toNat < 2 ^ (7 * length) := by
  induction length generalizing value with
  | zero => simpa using List.length_pos_iff.mp (encode_length_pos value)
  | succ length ih =>
    have power : 2 ^ (7 * (length + 1)) = 2 ^ (7 * length) * 128 := by
      rw [Nat.mul_succ, pow_add]
      rfl
    rw [encode_eq, power]
    split
    · rename_i small
      have least := Nat.two_pow_pos (7 * length)
      rw [lt_continued_iff] at small
      simp only [List.length_singleton, Nat.le_add_left, true_and, true_iff]
      omega
    · rename_i large
      rw [lt_continued_iff, not_lt] at large
      rw [List.length_cons, Nat.add_le_add_iff_right, ih, shift_toNat,
        Nat.div_lt_iff_lt_mul (by decide)]
      -- One group alone has no room for a value that is continued.
      constructor
      · rintro ⟨-, below⟩
        exact ⟨Nat.le_add_left _ _, below⟩
      · rintro ⟨-, below⟩
        refine ⟨Nat.one_le_iff_ne_zero.mpr ?_, below⟩
        rintro rfl
        exact absurd large (Nat.not_le.mpr below)

/-- The shortest form has as few bytes as there are groups of seven bits to hold the value. -/
theorem encode_length_isLeast (value : UInt32) :
    IsLeast {length | 1 ≤ length ∧ value.toNat < 2 ^ (7 * length)} (encode value).length :=
  ⟨(encode_length_le_iff value).mp (Nat.le_refl _),
    fun _ room => (encode_length_le_iff value).mpr room⟩

/-! ## Longer forms -/

theorem padded_length (value : UInt32) (zeros : Nat) :
    (padded value zeros).length = (encode value).length + zeros := by
  cases zeros with
  | zero => rfl
  | succ zeros => simp [padded]

/-- All bytes but the last one are continued already. -/
theorem Groups.map_continued (groups : Groups bytes number) :
    bytes.map (· ||| 0x80) = bytes.modifyLast (· ||| 0x80) := by
  induction groups with
  | last small => rfl
  | @more byte bytes high large groups ih =>
    have others : bytes ≠ [] := List.length_pos_iff.mp groups.length_pos
    have apart := List.modifyLast_append_of_right_ne_nil (· ||| 0x80) [byte] bytes others
    rw [List.map_cons, ih, continued_eq large]
    exact apart.symm

/-- A longer form is the shortest one with its last byte continued and with zero groups after it. -/
theorem padded_eq (value : UInt32) (zeros : Nat) :
    padded value zeros = if zeros = 0 then encode value
      else (encode value).modifyLast (· ||| 0x80) ++ List.replicate (zeros - 1) 0x80 ++ [0x00] := by
  cases zeros with
  | zero => rfl
  | succ zeros => rw [padded, (groups_encode value).map_continued]; rfl

/-- A value is read from a number of bytes exactly where these are its form of that length. -/
theorem decode_eq_value_iff_padded {bytes : List UInt8} {length : Nat} :
    decode bytes = .value value length ↔
      (encode value).length ≤ length ∧ length ≤ maxLength ∧
        bytes.take length = padded value (length - (encode value).length) := by
  rw [decode_eq_value_iff]
  constructor
  · rintro ⟨_, rest, rfl, ⟨zeros, rfl, short⟩, rfl⟩
    have longer := padded_length value zeros
    refine ⟨by omega, short, ?_⟩
    rw [List.take_left, longer, Nat.add_sub_cancel_left]
  · rintro ⟨least, short, taken⟩
    have size : length = (bytes.take length).length := by
      rw [taken, padded_length, Nat.add_sub_of_le least]
    refine ⟨bytes.take length, bytes.drop length, (List.take_append_drop length bytes).symm, ?_,
      size⟩
    exact ⟨_, taken, size ▸ short⟩

/-- A zero group makes the form of a small value one byte longer. -/
example : decode [0x85, 0x00, 0x07] = .value 5 2 := by decide

/-- Writing a value adds its shortest form to what is written and changes nothing else. That form
is read back whatever follows it, and it has as few bytes as hold the value in groups of seven bits,
five at most. A value is also read from longer forms of up to five bytes, which are the shortest one
with its last byte continued, zero groups that are continued too, and a zero group at the end, and
from nothing else. -/
theorem encode_shortest (value : UInt32) :
    (∀ rest, decode (encode value ++ rest) = .value value (encode value).length) ∧
    IsLeast {length | 1 ≤ length ∧ value.toNat < 2 ^ (7 * length)} (encode value).length ∧
    (encode value).length ≤ 5 ∧
    (∀ written, push written value = written ++ encode value) ∧
    (∀ (header : Header) (items : List Item),
      header.payload (items ++ [.varint value]) = header.payload items ++ encode value) ∧
    (∀ bytes length, decode bytes = .value value length ↔
      (encode value).length ≤ length ∧ length ≤ 5 ∧
        bytes.take length = if length = (encode value).length then encode value
          else (encode value).modifyLast (· ||| 0x80) ++
            List.replicate (length - (encode value).length - 1) 0x80 ++ [0x00]) := by
  refine ⟨fun rest => ?_, encode_length_isLeast value, encode_length value,
    fun written => push_eq written value, fun header items => ?_, fun bytes length => ?_⟩
  · exact decode_eq_value_iff.mpr ⟨encode value, rest, rfl, spelling_encode value, rfl⟩
  · simp [Header.payload, Item.encode]
  · rw [decode_eq_value_iff_padded, padded_eq]
    refine and_congr_right fun least => and_congr_right fun _ => ?_
    have none : length - (encode value).length = 0 ↔ length = (encode value).length := by omega
    rw [if_congr none rfl rfl]

end InstructionTables.Varint
