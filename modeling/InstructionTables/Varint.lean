/-! Variable-length numbers. A 32-bit value is cut into groups of seven bits, the lowest
group first, and every byte but the last has its high bit set. Reading looks at no more
than five bytes and also takes groups of zeros that writing would have left out. -/
namespace InstructionTables.Varint

/-- The most bytes a 32-bit value takes, seven bits each. -/
def maxLength : Nat := 5

/-! ## Writing -/

/-- Writes a value in at most one byte more than the given number of groups, stopping at
the first group that leaves no higher bits. -/
def encodeGroups : Nat → UInt32 → List UInt8
  | 0, value => [value.toUInt8]
  | groups + 1, value =>
    if value < 0x80 then [value.toUInt8]
    else (value.toUInt8 ||| 0x80) :: encodeGroups groups (value >>> 7)

/-- The shortest written form of a value. -/
def encode (value : UInt32) : List UInt8 :=
  encodeGroups 4 value

/-- The bytes of a value behind those that are there, one more byte at a time until no higher bits
are left. -/
def push (written : List UInt8) (value : UInt32) : List UInt8 :=
  if value < 0x80 then written ++ [value.toUInt8]
  else push (written ++ [value.toUInt8 ||| 0x80]) (value >>> 7)
termination_by value.toNat
decreasing_by
  rename_i large
  have positive : ¬value.toNat < 128 := large
  rw [UInt32.toNat_shiftRight, Nat.shiftRight_eq_div_pow]
  exact Nat.div_lt_self (by omega) (by decide)

/-! ## Reading -/

/-- What the first bytes of a list say when read as a variable-length number. -/
inductive Decoded where
  /-- A value and the number of bytes it takes. -/
  | value (value : UInt32) (length : Nat)
  /-- The bytes end before the last group. -/
  | incomplete
  /-- The number does not fit 32 bits or does not end within five bytes. -/
  | overflow
deriving DecidableEq, Repr

/-- Reads on when `groups` bytes may still follow and the groups so far sum to `value`.
The fifth byte has room for four bits only. -/
def decodeGroups : Nat → UInt32 → List UInt8 → Decoded
  | 0, _, _ => .overflow
  | _ + 1, _, [] => .incomplete
  | groups + 1, value, byte :: rest =>
    let bits := (byte &&& 0x7f).toUInt32
    if groups = 0 ∧ 0x0f < bits then .overflow
    else
      let position := maxLength - (groups + 1)
      let value := value ||| bits <<< UInt32.ofNat (7 * position)
      if byte &&& 0x80 = 0 then .value value (position + 1)
      else decodeGroups groups value rest

/-- Reads the number at the start of a list of bytes. -/
def decode (bytes : List UInt8) : Decoded :=
  decodeGroups maxLength 0 bytes

end InstructionTables.Varint
