import InstructionTables.Payload.Cursor
import InstructionTables.Payload.Item
import Mathlib.Algebra.Group.Nat.Defs
import Mathlib.Logic.Basic
import Mathlib.Tactic.SplitIfs

/-! The header word in detail. Its fields are separate ranges of bits, so each of them can be set
without a change to the others, and a field reads back what was last given to it. Its bytes are the
fields in order, which is what the start of a payload is compared with. The main statement says what
every sequence of changes leaves in a header, and which payloads are accepted for a kind and why the
others are not. -/
namespace InstructionTables

namespace Header

/-- A field of a header. -/
inductive Field where
  | version
  | rawKind
  | magic
deriving DecidableEq

namespace Field

/-- What a field can hold. -/
def Value : Field → Type
  | version => UInt8
  | rawKind => UInt8
  | magic => UInt16

/-- The number of bits below a field. -/
def place : Field → Nat
  | version => 0
  | rawKind => 8
  | magic => 16

/-- The number of bits in a field. -/
def width : Field → Nat
  | version => 8
  | rawKind => 8
  | magic => 16

/-- A value of a field as a plain number. -/
def toNat : (field : Field) → field.Value → Nat
  | version, value => UInt8.toNat value
  | rawKind, value => UInt8.toNat value
  | magic, value => UInt16.toNat value

theorem toNat_lt (field : Field) (value : field.Value) : field.toNat value < 2 ^ field.width := by
  cases field with
  | version | rawKind => exact UInt8.toNat_lt value
  | magic => exact UInt16.toNat_lt value

theorem toNat_inj {field : Field} {value other : field.Value} :
    field.toNat value = field.toNat other ↔ value = other := by
  cases field with
  | version | rawKind => exact UInt8.toNat_inj
  | magic => exact UInt16.toNat_inj

/-- No bit belongs to two fields. -/
theorem apart {field other : Field} (different : field ≠ other) :
    field.place + field.width ≤ other.place ∨ other.place + other.width ≤ field.place := by
  cases field <;> cases other <;> simp_all [place, width]

/-- Every field lies within the word. -/
theorem within_word (field : Field) : field.place < 32 ∧ field.place + field.width ≤ 32 := by
  cases field <;> decide

end Field

/-- The value of a field. -/
def get (header : Header) : (field : Field) → field.Value
  | .version => header.version
  | .rawKind => header.rawKind
  | .magic => header.magic

/-- A field and the value that it is given. -/
structure Setting where
  field : Field
  value : field.Value

/-- The header with one field set. -/
def set (header : Header) : Setting → Header
  | ⟨.version, value⟩ => header.withVersion value
  | ⟨.rawKind, value⟩ => header.withRawKind value
  | ⟨.magic, value⟩ => header.withMagic value

/-- The header with fields set in order. -/
def setAll (header : Header) (settings : List Setting) : Header :=
  settings.foldl set header

/-- The value that a field is given, if it is the one that is set. -/
def Setting.value? (setting : Setting) (field : Field) : Option field.Value :=
  if same : setting.field = field then some (same ▸ setting.value) else none

/-! ## Bits -/

/-- The bits of a field are those of the word from its place on. -/
theorem get_testBit (header : Header) (field : Field) (position : Nat) :
    (field.toNat (header.get field)).testBit position =
      (decide (position < field.width) && header.word.toNat.testBit (field.place + position)) := by
  cases field with
  | version =>
    change header.word.toUInt8.toNat.testBit position = _
    rw [UInt32.toNat_toUInt8, Nat.testBit_mod_two_pow, Field.place, Nat.zero_add]
    rfl
  | rawKind =>
    change (header.word >>> 8).toUInt8.toNat.testBit position = _
    rw [UInt32.toNat_toUInt8, UInt32.toNat_shiftRight, Nat.testBit_mod_two_pow,
      Nat.testBit_shiftRight]
    rfl
  | magic =>
    change (header.word >>> 16).toUInt16.toNat.testBit position = _
    rw [UInt32.toNat_toUInt16, UInt32.toNat_shiftRight, Nat.testBit_mod_two_pow,
      Nat.testBit_shiftRight]
    rfl

/-- A number that is below a power of two has no bits from the exponent on. -/
private theorem testBit_of_le {number bits position : Nat} (small : number < 2 ^ bits)
    (above : bits ≤ position) : number.testBit position = false :=
  Nat.testBit_lt_two_pow (Nat.lt_of_lt_of_le small (Nat.pow_le_pow_right (by decide) above))

/-- Clearing the bits of a field and putting others in their place changes these bits alone. -/
private theorem replaced_testBit (field : Field) (value : field.Value) {mask bits : UInt32}
    (cleared : ∀ position < 32, mask.toNat.testBit position =
      !decide (field.place ≤ position ∧ position < field.place + field.width))
    (same : bits.toNat = field.toNat value) (word : UInt32) (position : Nat) :
    (word &&& mask ||| bits <<< UInt32.ofNat field.place).toNat.testBit position =
      if field.place ≤ position ∧ position < field.place + field.width then
        (field.toNat value).testBit (position - field.place)
      else word.toNat.testBit position := by
  obtain ⟨start, inside⟩ := field.within_word
  have distance : (UInt32.ofNat field.place).toNat % 32 = field.place := by
    rw [UInt32.toNat_ofNat']
    omega
  rw [UInt32.toNat_or, UInt32.toNat_and, UInt32.toNat_shiftLeft, distance, same, Nat.testBit_or,
    Nat.testBit_and, Nat.testBit_mod_two_pow, Nat.testBit_shiftLeft]
  rcases Nat.lt_or_ge position 32 with within | outside
  · rw [cleared position within, decide_eq_true within, Bool.true_and]
    split
    · rename_i replaced
      simp [replaced]
    · rename_i kept
      rw [decide_eq_false kept, Bool.not_false, Bool.and_true]
      rcases Nat.lt_or_ge position field.place with below | above
      · rw [decide_eq_false (Nat.not_le.mpr below), Bool.false_and, Bool.or_false]
      · rw [testBit_of_le (field.toNat_lt value) (by omega), Bool.and_false, Bool.or_false]
  · rw [if_neg (by omega), testBit_of_le word.toNat_lt outside,
      decide_eq_false (Nat.not_lt.mpr outside), Bool.false_and, Bool.false_and, Bool.or_false]

/-- Setting a field changes the bits of that field alone. -/
theorem set_testBit (header : Header) (setting : Setting) (position : Nat) :
    (header.set setting).word.toNat.testBit position =
      if setting.field.place ≤ position ∧ position < setting.field.place + setting.field.width then
        (setting.field.toNat setting.value).testBit (position - setting.field.place)
      else header.word.toNat.testBit position := by
  obtain ⟨field, value⟩ := setting
  cases field with
  | version =>
    -- The lowest field is put in its place without a shift.
    have unshifted : UInt8.toUInt32 value <<< UInt32.ofNat 0 = UInt8.toUInt32 value :=
      UInt32.shiftLeft_zero
    have replaced := @replaced_testBit .version value 0xffffff00 _ (by decide)
      (UInt8.toNat_toUInt32 value) header.word position
    rwa [Field.place, unshifted] at replaced
  | rawKind =>
    exact replaced_testBit .rawKind value (by decide) (UInt8.toNat_toUInt32 value)
      header.word position
  | magic =>
    exact replaced_testBit .magic value (by decide) (UInt16.toNat_toUInt32 value)
      header.word position

/-! ## Settings -/

/-- A field that is set reads back its value. -/
theorem get_set (header : Header) (setting : Setting) :
    (header.set setting).get setting.field = setting.value := by
  rw [← Field.toNat_inj]
  refine Nat.eq_of_testBit_eq fun position => ?_
  rw [get_testBit, set_testBit]
  by_cases within : position < setting.field.width
  · rw [if_pos ⟨Nat.le_add_right _ _, Nat.add_lt_add_left within _⟩, Nat.add_sub_cancel_left,
      decide_eq_true within, Bool.true_and]
  · rw [decide_eq_false within, Bool.false_and]
    exact (testBit_of_le (setting.field.toNat_lt setting.value) (Nat.le_of_not_lt within)).symm

/-- A field that is not set reads back what it held. -/
theorem get_set_of_ne (header : Header) {setting : Setting} {field : Field}
    (different : field ≠ setting.field) : (header.set setting).get field = header.get field := by
  rw [← Field.toNat_inj]
  refine Nat.eq_of_testBit_eq fun position => ?_
  rw [get_testBit, get_testBit]
  by_cases within : position < field.width
  · have apart := Field.apart different
    rw [set_testBit, if_neg (by omega)]
  · rw [decide_eq_false within, Bool.false_and, Bool.false_and]

/-- Whatever is set, every field holds what was last given to it. -/
theorem get_setAll (header : Header) (settings : List Setting) (field : Field) :
    (header.setAll settings).get field =
      (settings.filterMap (·.value? field)).getLastD (header.get field) := by
  induction settings generalizing header with
  | nil => rfl
  | cons setting settings ih =>
    change ((header.set setting).setAll settings).get field = _
    rw [ih]
    by_cases same : setting.field = field
    · subst same
      have given : setting.value? setting.field = some setting.value := dif_pos rfl
      simp only [List.filterMap_cons, given, List.getLastD_cons, get_set]
    · have none : setting.value? field = none := dif_neg same
      simp only [List.filterMap_cons, none, get_set_of_ne header (Ne.symm same)]

/-- Any values of the fields are those of some header. -/
theorem exists_fields (version rawKind : UInt8) (magic : UInt16) : ∃ header : Header,
    header.version = version ∧ header.rawKind = rawKind ∧ header.magic = magic :=
  let settings : List Setting := [⟨.version, version⟩, ⟨.rawKind, rawKind⟩, ⟨.magic, magic⟩]
  ⟨({} : Header).setAll settings, get_setAll {} settings .version,
    get_setAll {} settings .rawKind, get_setAll {} settings .magic⟩

/-! ## Bytes -/

private theorem byte_shift_toNat (byte : UInt8) (distance : UInt32)
    (small : distance.toNat ≤ 24) :
    (byte.toUInt32 <<< distance).toNat = 2 ^ distance.toNat * byte.toNat := by
  have place : distance.toNat % 32 = distance.toNat := Nat.mod_eq_of_lt (by omega)
  have fits : byte.toNat * 2 ^ distance.toNat < 2 ^ 32 := by
    calc byte.toNat * 2 ^ distance.toNat
      _ < 2 ^ 8 * 2 ^ distance.toNat :=
        Nat.mul_lt_mul_of_pos_right byte.toNat_lt (Nat.two_pow_pos _)
      _ ≤ 2 ^ 8 * 2 ^ 24 := Nat.mul_le_mul_left _ (Nat.pow_le_pow_right (by omega) small)
  rw [UInt32.toNat_shiftLeft, UInt8.toNat_toUInt32, Nat.shiftLeft_eq, place,
    Nat.mod_eq_of_lt fits, mul_comm]

/-- The first four bytes of a payload are the digits of its header word. -/
private theorem header_word_toNat (first second third fourth : UInt8) :
    (first.toUInt32 ||| (second.toUInt32 <<< 8) ||| (third.toUInt32 <<< 16) |||
      (fourth.toUInt32 <<< 24)).toNat =
        first.toNat + 2 ^ 8 * second.toNat + 2 ^ 16 * third.toNat + 2 ^ 24 * fourth.toNat := by
  have firstBound := first.toNat_lt
  have secondBound := second.toNat_lt
  have thirdBound := third.toNat_lt
  have above {low : Nat} (place high : Nat) (below : low < 2 ^ place) :
      low ||| 2 ^ place * high = low + 2 ^ place * high := by
    rw [Nat.or_comm, ← Nat.two_pow_add_eq_or_of_lt below, add_comm]
  rw [UInt32.toNat_or, UInt32.toNat_or, UInt32.toNat_or, UInt8.toNat_toUInt32,
    byte_shift_toNat second 8 (by decide), byte_shift_toNat third 16 (by decide),
    byte_shift_toNat fourth 24 (by decide)]
  simp only [UInt32.reduceToNat]
  rw [above 8 _ (by omega), above 16 _ (by omega), above 24 _ (by omega)]

/-- The bytes of a word are its digits. -/
private theorem toBytes_eq_iff (header : Header) (first second third fourth : UInt8) :
    header.toBytes = [first, second, third, fourth] ↔ header.word.toNat =
      first.toNat + 2 ^ 8 * second.toNat + 2 ^ 16 * third.toNat + 2 ^ 24 * fourth.toNat := by
  have wordBound := header.word.toNat_lt
  have firstBound := first.toNat_lt
  have secondBound := second.toNat_lt
  have thirdBound := third.toNat_lt
  have fourthBound := fourth.toNat_lt
  simp only [toBytes, List.cons.injEq, and_true, ← UInt8.toNat_inj, UInt32.toNat_toUInt8,
    UInt32.toNat_shiftRight, UInt32.reduceToNat, Nat.reduceMod, Nat.shiftRight_eq_div_pow]
  omega

/-- A header is found exactly where its bytes are, whatever follows them. -/
theorem ofBytes?_eq_some_iff {bytes : List UInt8} {header : Header} :
    ofBytes? bytes = some header ↔ ∃ rest, bytes = header.toBytes ++ rest := by
  have stored (first second third fourth : UInt8) (rest : List UInt8) :
      ofBytes? (first :: second :: third :: fourth :: rest) = some header ↔
        header.toBytes = [first, second, third, fourth] := by
    obtain ⟨word⟩ := header
    rw [toBytes_eq_iff, ← header_word_toNat, UInt32.toNat_inj, ofBytes?, Option.some.injEq,
      mk.injEq, eq_comm]
  constructor
  · intro found
    obtain _ | ⟨first, _ | ⟨second, _ | ⟨third, _ | ⟨fourth, rest⟩⟩⟩⟩ := bytes
    case cons.cons.cons.cons =>
      rw [(stored first second third fourth rest).mp found]
      exact ⟨rest, rfl⟩
    all_goals cases found
  · rintro ⟨rest, rfl⟩
    exact (stored _ _ _ _ rest).mpr rfl

theorem length_toBytes (header : Header) : header.toBytes.length = size := rfl

/-- Any payload that is long enough starts with a header. -/
theorem exists_toBytes {payload : List UInt8} (enough : size ≤ payload.length) :
    ∃ (header : Header) (rest : List UInt8), payload = header.toBytes ++ rest := by
  obtain _ | ⟨first, _ | ⟨second, _ | ⟨third, _ | ⟨fourth, rest⟩⟩⟩⟩ := payload
  case cons.cons.cons.cons => exact ⟨_, ofBytes?_eq_some_iff.mp rfl⟩
  all_goals
    simp only [List.length_cons, List.length_nil, size] at enough
    omega

/-- The bytes of a header are its fields in order, the lower byte of the magic number first. -/
theorem toBytes_eq (header : Header) : header.toBytes =
    header.version :: header.rawKind :: Item.encode (.reference header.magic) := by
  have bound := header.word.toNat_lt
  simp only [toBytes, version, rawKind, magic, Item.encode, List.cons.injEq, and_true, true_and,
    ← UInt8.toNat_inj, UInt32.toNat_toUInt8, UInt16.toNat_toUInt8, UInt16.toNat_shiftRight,
    UInt32.toNat_toUInt16, UInt32.toNat_shiftRight, UInt32.reduceToNat, UInt16.reduceToNat,
    Nat.reduceMod, Nat.shiftRight_eq_div_pow]
  omega

end Header

/-! ## Acceptance -/

/-- Why a payload is refused for its header, when it is expected to be of this kind. The magic
number is looked at first, then the kind, then the version. -/
inductive HeaderRefused (kind : PayloadKind) : List UInt8 → Fault → Prop where
  /-- There are fewer bytes than a header has. -/
  | short {payload : List UInt8} : payload.length < 4 →
      HeaderRefused kind payload (.truncated 0 (4 - payload.length))
  /-- The third and the fourth byte are another magic number. -/
  | magic {version rawKind : UInt8} {found : UInt16} {rest : List UInt8} :
      found ≠ Header.magicNumber →
      HeaderRefused kind (version :: rawKind :: (Item.encode (.reference found) ++ rest))
        (.badMagic found)
  /-- The second byte is that of another kind, or of none. -/
  | rawKind {version found : UInt8} {rest : List UInt8} : found ≠ Tag.byte kind →
      HeaderRefused kind
        (version :: found :: (Item.encode (.reference Header.magicNumber) ++ rest))
        (.wrongPayloadKind kind found)
  /-- The first byte is another version. -/
  | version {found : UInt8} {rest : List UInt8} : found ≠ Header.formatVersion →
      HeaderRefused kind
        (found :: Tag.byte kind :: (Item.encode (.reference Header.magicNumber) ++ rest))
        (.unsupportedVersion Header.formatVersion found)

namespace Cursor

variable {payload : List UInt8} {kind : PayloadKind}

theorem afterHeader_short (short : payload.length < Header.size) (kind : PayloadKind) :
    afterHeader payload kind = .error (.truncated 0 (Header.size - payload.length)) := by
  obtain _ | ⟨first, _ | ⟨second, _ | ⟨third, _ | ⟨fourth, rest⟩⟩⟩⟩ := payload
  case cons.cons.cons.cons =>
    simp only [List.length_cons, Header.size] at short
    omega
  all_goals rfl

/-- A payload goes by the fields at its start. -/
theorem afterHeader_fields (version rawKind : UInt8) (magic : UInt16) (rest : List UInt8)
    (kind : PayloadKind) :
    afterHeader (version :: rawKind :: (Item.encode (.reference magic) ++ rest)) kind =
      if magic ≠ Header.magicNumber then .error (.badMagic magic)
      else if rawKind ≠ Tag.byte kind then .error (.wrongPayloadKind kind rawKind)
      else if version ≠ Header.formatVersion then
        .error (.unsupportedVersion Header.formatVersion version)
      else .ok ⟨Header.size, rest⟩ := by
  obtain ⟨header, rfl, rfl, rfl⟩ := Header.exists_fields version rawKind magic
  have found : Header.ofBytes? (header.version :: header.rawKind ::
      (Item.encode (.reference header.magic) ++ rest)) = some header :=
    Header.ofBytes?_eq_some_iff.mpr ⟨rest, by rw [Header.toBytes_eq]; rfl⟩
  have other : Tag.ofByte? header.rawKind ≠ some kind ↔ header.rawKind ≠ Tag.byte kind := by
    rw [ne_eq, Tag.ofByte?_eq_some_iff, eq_comm]
  simp only [afterHeader, found, Header.check, other]
  split_ifs <;> rfl

/-- Any payload that is long enough has fields at its start. -/
theorem exists_fields (enough : Header.size ≤ payload.length) :
    ∃ version rawKind magic rest,
      payload = version :: rawKind :: (Item.encode (.reference magic) ++ rest) := by
  obtain ⟨header, rest, rfl⟩ := Header.exists_toBytes enough
  exact ⟨_, _, header.magic, rest, by rw [Header.toBytes_eq]; rfl⟩

/-- A payload is accepted for a kind exactly when it starts with the header of that kind. -/
theorem afterHeader_ok_iff {cursor : Cursor} :
    afterHeader payload kind = .ok cursor ↔
      payload = (Header.ofKind kind).toBytes ++ cursor.rest ∧ cursor.offset = Header.size := by
  have written : (Header.ofKind kind).toBytes = Header.formatVersion :: Tag.byte kind ::
      Item.encode (.reference Header.magicNumber) := by
    cases kind <;> decide
  rw [written]
  constructor
  · intro accepted
    rcases Nat.lt_or_ge payload.length Header.size with short | enough
    · rw [afterHeader_short short] at accepted
      cases accepted
    · obtain ⟨version, rawKind, magic, rest, rfl⟩ := exists_fields enough
      rw [afterHeader_fields] at accepted
      split_ifs at accepted with otherMagic otherKind otherVersion
      cases accepted
      rw [not_not.mp otherMagic, not_not.mp otherKind, not_not.mp otherVersion]
      exact ⟨rfl, rfl⟩
  · obtain ⟨offset, rest⟩ := cursor
    rintro ⟨rfl, rfl⟩
    have ran := afterHeader_fields Header.formatVersion (Tag.byte kind) Header.magicNumber rest kind
    rwa [if_neg (not_not.mpr rfl), if_neg (not_not.mpr rfl), if_neg (not_not.mpr rfl)] at ran

/-- A payload is refused for its header exactly for these reasons. -/
theorem afterHeader_error_iff {fault : Fault} :
    afterHeader payload kind = .error fault ↔ HeaderRefused kind payload fault := by
  constructor
  · intro refused
    rcases Nat.lt_or_ge payload.length Header.size with short | enough
    · rw [afterHeader_short short] at refused
      cases refused
      exact .short short
    · obtain ⟨version, rawKind, magic, rest, rfl⟩ := exists_fields enough
      rw [afterHeader_fields] at refused
      split_ifs at refused with otherMagic otherKind otherVersion
      · cases refused
        exact .magic otherMagic
      · cases refused
        rw [not_not.mp otherMagic]
        exact .rawKind otherKind
      · cases refused
        rw [not_not.mp otherMagic, not_not.mp otherKind]
        exact .version otherVersion
  · intro refused
    cases refused with
    | short short => exact afterHeader_short short kind
    | magic other => rw [afterHeader_fields, if_pos other]
    | rawKind other => rw [afterHeader_fields, if_neg (not_not.mpr rfl), if_pos other]
    | version other =>
      rw [afterHeader_fields, if_neg (not_not.mpr rfl), if_neg (not_not.mpr rfl), if_pos other]

/-- Of two things that are wrong, the kind is told before the version. -/
example : afterHeader [2, 1, 0xed, 0x1c] .decoder = .error (.wrongPayloadKind .decoder 1) := by
  decide

end Cursor

/-- However often the fields of a header are set, each of them holds what was last given to it, or
what it held before, and setting one leaves the others as they are. The bytes of a header give the
header back, whatever follows them. A payload is accepted for a kind exactly if it starts with the
bytes of the header of that kind, and is otherwise refused for the first of the reasons that it
gives, with what was found in its place. -/
theorem header_fields_checked (header : Header) :
    (∀ settings field, (header.setAll settings).get field =
      (settings.filterMap (·.value? field)).getLastD (header.get field)) ∧
    (∀ setting field, field ≠ setting.field → (header.set setting).get field = header.get field) ∧
    (∀ rest, Header.ofBytes? (header.toBytes ++ rest) = some header) ∧
    ∀ payload kind,
      (∀ start, Cursor.afterHeader payload kind = .ok start ↔
        payload.take 4 = (Header.ofKind kind).toBytes ∧ start = ⟨4, payload.drop 4⟩) ∧
      (∀ fault, Cursor.afterHeader payload kind = .error fault ↔
        HeaderRefused kind payload fault) := by
  refine ⟨header.get_setAll, fun setting field => header.get_set_of_ne, fun rest => ?_,
    fun payload kind => ⟨fun start => ?_, fun fault => Cursor.afterHeader_error_iff⟩⟩
  · exact Header.ofBytes?_eq_some_iff.mpr ⟨rest, rfl⟩
  · rw [Cursor.afterHeader_ok_iff]
    constructor
    · rintro ⟨rfl, offset⟩
      refine ⟨List.take_left' rfl, ?_⟩
      obtain ⟨_, rest⟩ := start
      cases offset
      rfl
    · rintro ⟨first, rfl⟩
      exact ⟨by rw [← first, List.take_append_drop], rfl⟩

end InstructionTables
