import InstructionTables.Ordinal

/-! Flags of a template: what its text needs beyond the operands it lists. A set of flags is
a word with one bit for each flag, at the flag's ordinal, and has no other bits. -/
namespace InstructionTables.Template

/-- A property of a template that changes how it is written. -/
inductive Flag where
  /-- Operands are written in reverse order. -/
  | reverseOperands
  /-- The top of the register stack is an operand that is left out. -/
  | stImplicit
  /-- A memory operand is broadcast. -/
  | broadcast
  /-- The instruction may be marked for bound checks. -/
  | bndPrefix
  /-- An immediate operand is sign extended. -/
  | signExtendImm
  /-- The template declares data. -/
  | declareData
  /-- A memory operand is implied. -/
  | implicitMemory
  /-- The rounding mode is written. -/
  | rounding
  /-- The operand is a far pointer. -/
  | far
  /-- The operand is in memory. -/
  | memory
  /-- The width is an address size. -/
  | addressSize
  /-- The operand is an absolute address. -/
  | absoluteAddress
  /-- The suppression of exceptions is written. -/
  | sae
  /-- The operand is a branch target. -/
  | branch
  /-- The mnemonic depends on a condition code. -/
  | conditionCode
  /-- A register operand has 16 bits. -/
  | reg16
  /-- A register operand has 32 bits. -/
  | reg32
  /-- A vector register is an operand that is left out. -/
  | implicitXmm0
  /-- The mnemonic depends on an immediate operand. -/
  | pseudoOps
  /-- An operand equal to another is left out. -/
  | hideDuplicateOperand
  /-- An immediate operand with its usual value is left out. -/
  | hideDefaultImm
  /-- The instruction works on strings. -/
  | string
deriving DecidableEq, Repr

namespace Flag

instance : Ordinal Flag where
  values := [reverseOperands, stImplicit, broadcast, bndPrefix, signExtendImm, declareData,
    implicitMemory, rounding, far, memory, addressSize, absoluteAddress, sae, branch,
    conditionCode, reg16, reg32, implicitXmm0, pseudoOps, hideDuplicateOperand,
    hideDefaultImm, string]
  ordinal := Flag.ctorIdx
  name
    | reverseOperands => "REVERSE_OPERANDS"
    | stImplicit => "ST_IMPLICIT"
    | broadcast => "BROADCAST"
    | bndPrefix => "BND_PREFIX"
    | signExtendImm => "SIGN_EXTEND_IMM"
    | declareData => "DECLARE_DATA"
    | implicitMemory => "IMPLICIT_MEMORY"
    | rounding => "ROUNDING"
    | far => "FAR"
    | memory => "MEMORY"
    | addressSize => "ADDRESS_SIZE"
    | absoluteAddress => "ABSOLUTE_ADDRESS"
    | sae => "SAE"
    | branch => "BRANCH"
    | conditionCode => "CONDITION_CODE"
    | reg16 => "REG16"
    | reg32 => "REG32"
    | implicitXmm0 => "IMPLICIT_XMM0"
    | pseudoOps => "PSEUDO_OPS"
    | hideDuplicateOperand => "HIDE_DUPLICATE_OPERAND"
    | hideDefaultImm => "HIDE_DEFAULT_IMM"
    | string => "STRING"
  complete flag := by cases flag <;> decide
  dense := by decide

/-- The word in which only the bit of this flag is set. -/
def bit (flag : Flag) : BitVec 22 :=
  BitVec.twoPow 22 (Ordinal.ordinal flag)

end Flag

/-- A set of flags. -/
structure Flags where
  /-- One bit for each flag. -/
  bits : BitVec 22 := 0
deriving DecidableEq, Repr

namespace Flags

/-- The set of the listed flags. -/
def ofList (flags : List Flag) : Flags :=
  ⟨flags.foldl (fun bits flag => bits ||| flag.bit) 0⟩

/-- No flags. -/
def empty : Flags := {}

/-- All flags. -/
def all : Flags := ⟨BitVec.allOnes 22⟩

/-- Whether a flag is in the set. -/
def has (flags : Flags) (flag : Flag) : Bool :=
  flags.bits.getLsbD (Ordinal.ordinal flag)

/-! ## Words -/

/-- The set as a word. -/
def toWord (flags : Flags) : UInt32 :=
  UInt32.ofNat flags.bits.toNat

/-- The set with the bits of a word, where bits that stand for no flag are dropped. -/
def truncate (word : UInt32) : Flags :=
  ⟨BitVec.ofNat 22 word.toNat⟩

/-- The set with the bits of a word, if every bit stands for a flag. -/
def ofWord? (word : UInt32) : Option Flags :=
  if (truncate word).toWord = word then some (truncate word) else none

/-! ## Set operations -/

/-- The flags in either set. -/
def union (left right : Flags) : Flags := ⟨left.bits ||| right.bits⟩

/-- The flags in both sets. -/
def intersection (left right : Flags) : Flags := ⟨left.bits &&& right.bits⟩

/-- The flags in the left set only. -/
def difference (left right : Flags) : Flags := ⟨left.bits &&& ~~~right.bits⟩

/-- The flags in exactly one of the sets. -/
def symmetricDifference (left right : Flags) : Flags := ⟨left.bits ^^^ right.bits⟩

/-- The flags outside the set. -/
def complement (flags : Flags) : Flags := ⟨~~~flags.bits⟩

/-- The set with one flag added, or taken out where it was there. -/
def toggle (flags : Flags) (flag : Flag) : Flags := ⟨flags.bits ^^^ flag.bit⟩

/-- A flag that is toggled changes, and no other flag does. -/
theorem has_toggle (flags : Flags) (flag other : Flag) :
    (flags.toggle flag).has other = (flags.has other ^^ decide (other = flag)) := by
  have inside : Ordinal.ordinal flag < 22 := Ordinal.ordinal_lt_count flag
  have same : Ordinal.ordinal flag = Ordinal.ordinal other ↔ other = flag := by
    rw [eq_comm, ← Ordinal.ofOrdinal?_eq_some_iff, Ordinal.ofOrdinal?_ordinal, Option.some.injEq,
      eq_comm]
  simp only [has, toggle, Flag.bit, BitVec.getLsbD_xor, BitVec.getLsbD_twoPow, inside, decide_true,
    Bool.true_and, same]

/-- To toggle a flag twice changes nothing. -/
@[simp] theorem toggle_toggle (flags : Flags) (flag : Flag) :
    (flags.toggle flag).toggle flag = flags := by
  simp only [toggle, BitVec.xor_assoc, BitVec.xor_self, BitVec.xor_zero]

/-- Whether the set holds every flag of another. -/
def contains (flags part : Flags) : Bool := flags.intersection part == part

/-- Whether two sets have a flag in common. -/
def intersects (left right : Flags) : Bool := left.intersection right != empty

/-! ## Text -/

/-- The flags of the set, in the order of their ordinals. -/
def toList (flags : Flags) : List Flag :=
  (Ordinal.values : List Flag).filter flags.has

/-- The names of the flags in the set. -/
def text (flags : Flags) : String :=
  match flags.toList with
  | [] => "(empty)"
  | present => " | ".intercalate (present.map Ordinal.name)

end Flags

end InstructionTables.Template
