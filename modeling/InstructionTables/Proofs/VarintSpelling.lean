import InstructionTables.Varint
import Mathlib.Tactic.Ring

/-! What a variable-length number looks like. Writing gives the shortest form of a value, and
reading accepts that form and the ones that groups of zeros make longer, up to five bytes, and
nothing else. The groups are first read as a plain sum, without words and without a bound. -/
namespace InstructionTables.Varint

/-! ## Bytes and groups -/

/-- The shortest form of a value, made longer by the given number of zero groups. -/
def padded (value : UInt32) : Nat → List UInt8
  | 0 => encode value
  | zeros + 1 => (encode value).map (· ||| 0x80) ++ List.replicate zeros 0x80 ++ [0x00]

/-- The ways to write a value: in its shortest form or with zero groups after it, in five
bytes at most. -/
def Spelling (value : UInt32) (bytes : List UInt8) : Prop :=
  ∃ zeros, bytes = padded value zeros ∧ bytes.length ≤ maxLength

/-- The number that bytes stand for when every byte but the last is continued. No bound is
put on the number or on its bytes. -/
inductive Groups : List UInt8 → Nat → Prop where
  | last {byte : UInt8} : byte.toNat < 128 → Groups [byte] byte.toNat
  | more {byte : UInt8} {bytes : List UInt8} {high : Nat} : 128 ≤ byte.toNat →
      Groups bytes high → Groups (byte :: bytes) (byte.toNat - 128 + 128 * high)

theorem low_toNat (byte : UInt8) : (byte &&& 0x7f).toUInt32.toNat = byte.toNat % 128 := by
  rw [UInt8.toNat_toUInt32, UInt8.toNat_and]
  exact Nat.and_two_pow_sub_one_eq_mod byte.toNat 7

theorem is_last_iff (byte : UInt8) : byte &&& 0x80 = 0 ↔ byte.toNat < 128 := by
  have every : ∀ index : Fin 256, index.val &&& 128 = 0 ↔ index.val < 128 := by
    decide +kernel
  rw [← UInt8.toNat_inj, UInt8.toNat_and]
  exact every ⟨byte.toNat, byte.toNat_lt⟩

theorem continued_toNat (byte : UInt8) : (byte ||| 0x80).toNat = byte.toNat % 128 + 128 := by
  have every : ∀ index : Fin 256, index.val ||| 128 = index.val % 128 + 128 := by
    decide +kernel
  rw [UInt8.toNat_or]
  exact every ⟨byte.toNat, byte.toNat_lt⟩

theorem continued_eq {byte : UInt8} (continued : 128 ≤ byte.toNat) : byte ||| 0x80 = byte := by
  rw [← UInt8.toNat_inj, continued_toNat]
  have bound := byte.toNat_lt
  omega

theorem shift_toNat (value : UInt32) : (value >>> 7).toNat = value.toNat / 128 := by
  rw [UInt32.toNat_shiftRight]
  exact Nat.shiftRight_eq_div_pow value.toNat 7

theorem lt_continued_iff (value : UInt32) : value < 0x80 ↔ value.toNat < 128 :=
  UInt32.lt_iff_toNat_lt

/-! ## Writing -/

/-- Room for one more group changes nothing where the value already fits. -/
private theorem encodeGroups_room (groups : Nat) (value : UInt32)
    (fits : value.toNat < 128 ^ (groups + 1)) :
    encodeGroups (groups + 1) value = encodeGroups groups value := by
  induction groups generalizing value with
  | zero =>
    rw [encodeGroups, encodeGroups, if_pos ((lt_continued_iff value).mpr (by simpa using fits))]
  | succ groups ih =>
    have smaller : (value >>> 7).toNat < 128 ^ (groups + 1) := by
      rw [shift_toNat]
      exact Nat.div_lt_of_lt_mul (by rwa [pow_succ, mul_comm] at fits)
    conv_lhs => rw [encodeGroups, ih (value >>> 7) smaller]
    conv_rhs => rw [encodeGroups]

/-- Writing takes one group at a time, until no higher bits are left. -/
theorem encode_eq (value : UInt32) :
    encode value = if value < 0x80 then [value.toUInt8]
      else (value.toUInt8 ||| 0x80) :: encode (value >>> 7) := by
  have bound := value.toNat_lt
  have room : encodeGroups 4 (value >>> 7) = encodeGroups 3 (value >>> 7) :=
    encodeGroups_room 3 (value >>> 7) (by rw [shift_toNat]; omega)
  rw [encode, encodeGroups, encode, room]

private theorem encodeGroups_length (groups : Nat) (value : UInt32) :
    (encodeGroups groups value).length ≤ groups + 1 := by
  induction groups generalizing value with
  | zero => simp [encodeGroups]
  | succ groups ih =>
    rw [encodeGroups]
    split
    · simp
    · simpa using ih (value >>> 7)

theorem encode_length (value : UInt32) : (encode value).length ≤ maxLength :=
  encodeGroups_length 4 value

/-- The shortest form is one of the ways to write a value. -/
theorem spelling_encode (value : UInt32) : Spelling value (encode value) :=
  ⟨0, rfl, encode_length value⟩

private theorem groups_small {value : UInt32} (small : value.toNat < 128) :
    Groups [value.toUInt8] value.toNat := by
  have same : value.toUInt8.toNat = value.toNat := by
    rw [UInt32.toNat_toUInt8]
    omega
  rw [← same] at small ⊢
  exact Groups.last small

/-- The shortest form sums to the value that it was cut from. -/
theorem groups_encode (value : UInt32) : Groups (encode value) value.toNat := by
  induction size : value.toNat using Nat.strongRecOn generalizing value with
  | ind number ih =>
    subst size
    rw [encode_eq]
    split
    · rename_i small
      exact groups_small ((lt_continued_iff value).mp small)
    · rename_i large
      rw [lt_continued_iff, not_lt] at large
      have first : (value.toUInt8 ||| 0x80).toNat = value.toNat % 128 + 128 := by
        rw [continued_toNat, UInt32.toNat_toUInt8]
        omega
      have sum : value.toNat =
          (value.toUInt8 ||| 0x80).toNat - 128 + 128 * (value >>> 7).toNat := by
        rw [first, shift_toNat]
        omega
      rw [sum]
      exact Groups.more (by omega) (ih _ (by rw [shift_toNat]; omega) (value >>> 7) rfl)

/-! ## Padding -/

private theorem groups_zeros (zeros : Nat) :
    Groups (List.replicate zeros 0x80 ++ [0x00]) 0 := by
  induction zeros with
  | zero => exact @Groups.last 0x00 (by decide)
  | succ zeros ih => exact @Groups.more 0x80 _ 0 (by decide) ih

/-- Zero groups after the last one leave the sum as it was. -/
private theorem groups_padded (zeros : Nat) (groups : Groups bytes number) :
    Groups (bytes.map (· ||| 0x80) ++ List.replicate zeros 0x80 ++ [0x00]) number := by
  induction groups with
  | @last byte small =>
    have first : (byte ||| 0x80).toNat = byte.toNat + 128 := by
      rw [continued_toNat]
      omega
    have sum : byte.toNat = (byte ||| 0x80).toNat - 128 + 128 * 0 := by omega
    simp only [List.map_cons, List.map_nil, List.cons_append, List.nil_append]
    rw [sum]
    exact Groups.more (by omega) (groups_zeros zeros)
  | @more byte bytes high large groups ih =>
    have first := continued_eq large
    simpa only [List.map_cons, first, List.cons_append] using Groups.more large ih

theorem padded_zero (zeros : Nat) :
    padded 0 zeros = List.replicate zeros 0x80 ++ [0x00] := by
  cases zeros with
  | zero => rfl
  | succ zeros => rfl

/-- Groups that sum to a value are its shortest form with zero groups after it. -/
private theorem eq_padded_of_groups (groups : Groups bytes number)
    (value : UInt32) (same : value.toNat = number) : ∃ zeros, bytes = padded value zeros := by
  induction groups generalizing value with
  | @last byte small =>
    have byteEq : value.toUInt8 = byte := by
      rw [← UInt8.toNat_inj, UInt32.toNat_toUInt8]
      omega
    refine ⟨0, ?_⟩
    rw [padded, encode_eq, if_pos ((lt_continued_iff value).mpr (by omega)), byteEq]
  | @more byte bytes high large groups ih =>
    have byteBound := byte.toNat_lt
    have byteEq : value.toUInt8 ||| 0x80 = byte := by
      rw [← UInt8.toNat_inj, continued_toNat, UInt32.toNat_toUInt8]
      omega
    have highEq : (value >>> 7).toNat = high := by
      rw [shift_toNat]
      omega
    obtain ⟨zeros, rfl⟩ := ih (value >>> 7) highEq
    by_cases small : value < 0x80
    · -- All higher groups are zero, so the shortest form has one group.
      have none : value >>> 7 = 0 := by
        rw [← UInt32.toNat_inj, shift_toNat]
        rw [lt_continued_iff] at small
        exact Nat.div_eq_of_lt small
      refine ⟨zeros + 1, ?_⟩
      rw [none, padded_zero, padded, encode_eq, if_pos small]
      simp [byteEq]
    · refine ⟨zeros, ?_⟩
      cases zeros with
      | zero => rw [padded, padded, encode_eq value, if_neg small, byteEq]
      | succ zeros =>
        rw [padded, padded, encode_eq value, if_neg small, byteEq]
        simp [continued_eq large]

/-- The ways to write a value are the groups that sum to it, up to five. -/
theorem spelling_iff :
    Spelling value bytes ↔ Groups bytes value.toNat ∧ bytes.length ≤ maxLength := by
  constructor
  · rintro ⟨zeros, rfl, short⟩
    refine ⟨?_, short⟩
    cases zeros with
    | zero => exact groups_encode value
    | succ zeros => exact groups_padded zeros (groups_encode value)
  · rintro ⟨groups, short⟩
    obtain ⟨zeros, rfl⟩ := eq_padded_of_groups groups value rfl
    exact ⟨zeros, rfl, short⟩

theorem Groups.length_pos (groups : Groups bytes number) : 0 < bytes.length := by
  cases groups with
  | last small => exact Nat.succ_pos _
  | more large groups => exact Nat.succ_pos _

theorem Spelling.length_pos (spelled : Spelling value bytes) : 0 < bytes.length :=
  (spelling_iff.mp spelled).1.length_pos

/-! ## Reading -/

theorem groups_cons_iff :
    Groups (byte :: bytes) number ↔
      byte.toNat < 128 ∧ bytes = [] ∧ number = byte.toNat ∨
        128 ≤ byte.toNat ∧ ∃ high, Groups bytes high ∧ number = byte.toNat - 128 + 128 * high := by
  constructor
  · intro groups
    cases groups with
    | last small => exact Or.inl ⟨small, rfl, rfl⟩
    | more large groups => exact Or.inr ⟨large, _, groups, rfl⟩
  · rintro (⟨small, rfl, rfl⟩ | ⟨large, high, groups, rfl⟩)
    · exact Groups.last small
    · exact Groups.more large groups

/-- The first byte of some groups stands apart from the ones after it. -/
private theorem cons_groups_iff {Rest : List UInt8 → List UInt8 → Nat → Prop} :
    (∃ first after high, byte :: bytes = first ++ after ∧ Groups first high ∧
      Rest first after high) ↔
    ∃ first after high, bytes = first ++ after ∧ Groups (byte :: first) high ∧
      Rest (byte :: first) after high := by
  constructor
  · rintro ⟨first, after, high, same, groups, others⟩
    obtain ⟨rfl, -⟩ | ⟨first, rfl, rfl⟩ := List.cons_eq_append_iff.mp same
    · cases groups
    · exact ⟨first, after, high, rfl, groups, others⟩
  · rintro ⟨first, after, high, rfl, groups, others⟩
    exact ⟨byte :: first, after, high, rfl, groups, others⟩

/-- Putting the next group above the ones already read adds it at its place. -/
private theorem place_toNat {position : Nat} (place : position ≤ 4) {sum : UInt32} (bits : UInt32)
    (below : sum.toNat < 128 ^ position) (fits : 128 ^ position * bits.toNat < 2 ^ 32) :
    (sum ||| bits <<< UInt32.ofNat (7 * position)).toNat =
      sum.toNat + 128 ^ position * bits.toNat := by
  have power : 128 ^ position = 2 ^ (7 * position) := by
    rw [show 128 = 2 ^ 7 from rfl, pow_mul]
  have distance : (UInt32.ofNat (7 * position)).toNat % 32 = 7 * position := by
    rw [UInt32.toNat_ofNat']
    omega
  rw [power] at below fits ⊢
  rw [UInt32.toNat_or, UInt32.toNat_shiftLeft, distance, Nat.shiftLeft_eq, mul_comm bits.toNat,
    Nat.mod_eq_of_lt fits, Nat.or_comm, ← Nat.two_pow_add_eq_or_of_lt below, add_comm]

/-- The fifth byte is refused exactly when its group does not fit above the others. -/
private theorem overflows_iff {groups position : Nat} (places : position + (groups + 1) = 5)
    {sum bits : Nat} (below : sum < 128 ^ position) (bound : bits < 128) :
    (groups = 0 ∧ 15 < bits) ↔ 2 ^ 32 ≤ sum + 128 ^ position * bits := by
  obtain rfl | rfl | rfl | rfl | rfl : position = 0 ∨ position = 1 ∨ position = 2 ∨
    position = 3 ∨ position = 4 := by omega
  all_goals omega

/-- One step of reading, in numbers: the next group is added at its place, and the total has
to fit a word. -/
private theorem decodeGroups_cons {groups position : Nat} (places : position + (groups + 1) = 5)
    {sum : UInt32} (below : sum.toNat < 128 ^ position) {total : Nat}
    (added : total = sum.toNat + 128 ^ position * (byte.toNat % 128)) :
    decodeGroups (groups + 1) sum (byte :: rest) =
      if 2 ^ 32 ≤ total then .overflow
      else if byte.toNat < 128 then .value (UInt32.ofNat total) (position + 1)
      else decodeGroups groups (UInt32.ofNat total) rest := by
  have here : maxLength - (groups + 1) = position := by simp only [maxLength]; omega
  have refused := overflows_iff places below (Nat.mod_lt byte.toNat (by decide : 0 < 128))
  rw [← added] at refused
  simp only [decodeGroups, here, UInt32.lt_iff_toNat_lt, low_toNat, is_last_iff,
    UInt32.reduceToNat, refused]
  split
  · rfl
  · rename_i fits
    have placed := place_toNat (by omega) (byte &&& 0x7f).toUInt32 below (by rw [low_toNat]; omega)
    rw [low_toNat, ← added] at placed
    rw [← placed, UInt32.ofNat_toNat]

/-- Reading on adds the groups that follow to the ones already read, and takes no more bytes
than it may. -/
private theorem decodeGroups_eq_value_iff (groups position : Nat)
    (places : position + groups = 5) (sum : UInt32) (below : sum.toNat < 128 ^ position) :
    decodeGroups groups sum bytes = .value value length ↔
      ∃ first rest high, bytes = first ++ rest ∧ Groups first high ∧ first.length ≤ groups ∧
        value.toNat = sum.toNat + 128 ^ position * high ∧ length = position + first.length := by
  induction groups generalizing position sum bytes with
  | zero =>
    simp only [decodeGroups, reduceCtorEq, Nat.le_zero, List.length_eq_zero_iff, false_iff]
    rintro ⟨_, _, _, _, groups, rfl, _⟩
    cases groups
  | succ groups ih =>
    cases bytes with
    | nil =>
      simp only [decodeGroups, reduceCtorEq, List.nil_eq, List.append_eq_nil_iff, false_iff]
      rintro ⟨_, _, _, ⟨rfl, _⟩, groups, _⟩
      cases groups
    | cons byte rest =>
      have byteBound := byte.toNat_lt
      have most : 128 ^ position * (byte.toNat % 128) ≤ 128 ^ position * 127 :=
        Nat.mul_le_mul_left _ (by omega)
      obtain ⟨total, added⟩ :
          ∃ total, total = sum.toNat + 128 ^ position * (byte.toNat % 128) := ⟨_, rfl⟩
      rw [cons_groups_iff, decodeGroups_cons places below added]
      split
      · rename_i large
        have bound := value.toNat_lt
        simp only [reduceCtorEq, false_iff]
        rintro ⟨first, after, high, -, opened, -, sumEq, -⟩
        have part : byte.toNat % 128 ≤ high := by
          obtain ⟨_, _, rfl⟩ | ⟨_, high, _, rfl⟩ := groups_cons_iff.mp opened <;> omega
        have atLeast := Nat.mul_le_mul_left (128 ^ position) part
        omega
      · rename_i fits
        have totalEq : (UInt32.ofNat total).toNat = total :=
          UInt32.toNat_ofNat_of_lt (Nat.lt_of_not_le fits)
        split
        · rename_i small
          rw [Nat.mod_eq_of_lt small] at added
          simp only [Decoded.value.injEq, groups_cons_iff, ← UInt32.toNat_inj, totalEq]
          constructor
          · rintro ⟨same, rfl⟩
            exact ⟨[], rest, byte.toNat, rfl, Or.inl ⟨small, rfl, rfl⟩, Nat.le_add_left _ _,
              same.symm.trans added, rfl⟩
          · rintro ⟨first, after, high, -, ⟨-, rfl, rfl⟩ | ⟨large, -⟩, -, sumEq, rfl⟩
            · exact ⟨added.trans sumEq.symm, rfl⟩
            · omega
        · rename_i large
          rw [ih (position + 1) (by omega) _ (by rw [totalEq, pow_succ]; omega), totalEq]
          have bits : byte.toNat % 128 = byte.toNat - 128 := by omega
          have higher (high : Nat) : total + 128 ^ (position + 1) * high =
              sum.toNat + 128 ^ position * (byte.toNat - 128 + 128 * high) := by
            rw [added, bits, pow_succ]
            ring
          simp only [higher, groups_cons_iff, List.length_cons]
          constructor
          · rintro ⟨first, after, high, rfl, groups, short, sumEq, rfl⟩
            exact ⟨first, after, _, rfl, Or.inr ⟨by omega, high, groups, rfl⟩, by omega, sumEq,
              by omega⟩
          · rintro ⟨first, after, high, rfl, ⟨small, -⟩ | ⟨-, high, groups, rfl⟩, short, sumEq, rfl⟩
            · omega
            · exact ⟨first, after, high, rfl, groups, by omega, sumEq, by omega⟩

/-- Reading accepts exactly the ways to write a value, whatever bytes follow. -/
theorem decode_eq_value_iff :
    decode bytes = .value value length ↔
      ∃ first rest, bytes = first ++ rest ∧ Spelling value first ∧ length = first.length := by
  have plain : decodeGroups maxLength 0 bytes = .value value length ↔ _ :=
    decodeGroups_eq_value_iff maxLength 0 rfl 0 (by decide)
  rw [decode, plain]
  simp only [UInt32.toNat_zero, pow_zero, one_mul, zero_add, spelling_iff]
  constructor
  · rintro ⟨first, rest, high, rfl, groups, short, rfl, rfl⟩
    exact ⟨first, rest, rfl, ⟨groups, short⟩, rfl⟩
  · rintro ⟨first, rest, rfl, ⟨groups, short⟩, rfl⟩
    exact ⟨first, rest, _, rfl, groups, short, rfl, rfl⟩

/-- The bytes end inside of a number. -/
def Unfinished (bytes : List UInt8) : Prop :=
  bytes.length < maxLength ∧ ∀ byte ∈ bytes, 0x80 ≤ byte

/-- The bytes start with a number that is too large or too long: four bytes are continued, and the
fifth one is continued too or has more than the four bits that are left. -/
def Overflows (bytes : List UInt8) : Prop :=
  (∀ byte ∈ bytes.take 4, 0x80 ≤ byte) ∧ ∃ fifth, bytes[4]? = some fifth ∧ 0x10 ≤ fifth

private theorem decodeGroups_eq_incomplete_iff (groups : Nat) (sum : UInt32) :
    decodeGroups groups sum bytes = .incomplete ↔
      bytes.length < groups ∧ ∀ byte ∈ bytes, 128 ≤ byte.toNat := by
  induction groups generalizing sum bytes with
  | zero => simp [decodeGroups]
  | succ groups ih =>
    cases bytes with
    | nil => simp [decodeGroups]
    | cons byte rest =>
      simp only [decodeGroups, is_last_iff, List.length_cons, List.forall_mem_cons,
        Nat.add_lt_add_iff_right]
      split
      · rename_i full
        simp [full.1]
      · split
        · rename_i last
          simp [Nat.not_le.mpr last]
        · rename_i continued
          simp [ih, Nat.le_of_not_lt continued]

private theorem decodeGroups_eq_overflow_iff (groups : Nat) (sum : UInt32) :
    decodeGroups (groups + 1) sum bytes = .overflow ↔
      (∀ byte ∈ bytes.take groups, 128 ≤ byte.toNat) ∧
        ∃ last, bytes[groups]? = some last ∧ 16 ≤ last.toNat := by
  induction groups generalizing sum bytes with
  | zero =>
    cases bytes with
    | nil => simp [decodeGroups]
    | cons byte rest =>
      -- The last byte that may be read is refused for its bits or for being continued.
      have refused : 16 ≤ byte.toNat ↔ 15 < byte.toNat % 128 ∨ ¬ byte.toNat < 128 := by omega
      simp only [decodeGroups, is_last_iff, UInt32.lt_iff_toNat_lt, low_toNat,
        UInt32.reduceToNat, true_and, List.take_zero, List.not_mem_nil, false_implies,
        implies_true, List.getElem?_cons_zero, Option.some.injEq, exists_eq_left', refused]
      by_cases large : 15 < byte.toNat % 128
      · simp [large]
      · by_cases last : byte.toNat < 128 <;> simp [large, last]
  | succ groups ih =>
    cases bytes with
    | nil => simp [decodeGroups]
    | cons byte rest =>
      rw [decodeGroups, if_neg (fun full => Nat.succ_ne_zero groups full.1)]
      simp only [is_last_iff, List.take_succ_cons, List.forall_mem_cons, List.getElem?_cons_succ]
      split
      · rename_i last
        simp [Nat.not_le.mpr last]
      · rename_i continued
        simp [ih, Nat.le_of_not_lt continued]

/-- Reading asks for more bytes exactly when those that there are end inside of a number. -/
theorem decode_eq_incomplete_iff : decode bytes = .incomplete ↔ Unfinished bytes := by
  rw [decode, decodeGroups_eq_incomplete_iff]
  rfl

/-- Reading refuses exactly the numbers that are too large or too long. -/
theorem decode_eq_overflow_iff : decode bytes = .overflow ↔ Overflows bytes := by
  rw [decode, maxLength, decodeGroups_eq_overflow_iff]
  rfl

private theorem decodeGroups_append (groups : Nat) (sum : UInt32) (bytes more : List UInt8)
    (decided : decodeGroups groups sum bytes ≠ .incomplete) :
    decodeGroups groups sum (bytes ++ more) = decodeGroups groups sum bytes := by
  induction groups generalizing sum bytes with
  | zero => rfl
  | succ groups ih =>
    cases bytes with
    | nil => exact absurd rfl decided
    | cons byte rest =>
      simp only [List.cons_append, decodeGroups] at decided ⊢
      split
      · rfl
      · rename_i room
        rw [if_neg room] at decided
        split
        · rfl
        · rename_i continued
          rw [if_neg continued] at decided
          exact ih _ _ decided

/-- Bytes that decide how a number reads still do so when others follow. -/
theorem decode_append {bytes : List UInt8} (decided : decode bytes ≠ .incomplete)
    (more : List UInt8) : decode (bytes ++ more) = decode bytes :=
  decodeGroups_append maxLength 0 bytes more decided

end InstructionTables.Varint
