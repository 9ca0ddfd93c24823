import InstructionTables.Ordinal

/-! Sizes that are written beside an operand, and the rules that decide when they are. -/
namespace InstructionTables.Template

/-- The size token of an operand. -/
inductive OperandSize where
  /-- No token is written. -/
  | unmarked
  | bits16
  | bits32
  | bits64
deriving DecidableEq, Repr

namespace OperandSize

instance : Tag OperandSize where
  values := [unmarked, bits16, bits32, bits64]
  ordinal := OperandSize.ctorIdx
  name
    | unmarked => "None"
    | bits16 => "Size16"
    | bits32 => "Size32"
    | bits64 => "Size64"
  complete size := by cases size <;> decide
  dense := by decide
  label := "SizeOverride"
  fits := by decide

/-- The token as it is written. -/
def keyword : OperandSize → String
  | unmarked => ""
  | bits16 => "o16"
  | bits32 => "o32"
  | bits64 => "o64"

/-- The number of bits that a token stands for. -/
def width? : OperandSize → Option UInt32
  | unmarked => none
  | bits16 => some 16
  | bits32 => some 32
  | bits64 => some 64

/-- The token for a number of bits, if there is one. -/
def ofWidth? (bits : UInt32) : Option OperandSize :=
  if bits = 16 then some bits16
  else if bits = 32 then some bits32
  else if bits = 64 then some bits64
  else none

/-- The token that an operand needs where another width would be assumed: none for the
assumed width itself, nor for a width that has no token. -/
def forOperand (width assumed : UInt32) : OperandSize :=
  if width = assumed then unmarked else (ofWidth? width).getD unmarked

/-- A width has a token exactly when that token stands for it. -/
theorem ofWidth?_eq_some_iff {bits : UInt32} {size : OperandSize} :
    ofWidth? bits = some size ↔ size.width? = some bits := by
  unfold ofWidth?
  cases size <;> simp [width?] <;> grind

end OperandSize

/-- The mark of a branch target. -/
inductive BranchSize where
  /-- No mark is written. -/
  | unmarked
  | short
deriving DecidableEq, Repr

/-- What the reader of the text asked for. -/
structure Mode where
  /-- Short branches are marked. -/
  showBranchSize : Bool := true
deriving DecidableEq, Repr

namespace BranchSize

instance : Tag BranchSize where
  values := [unmarked, short]
  ordinal := BranchSize.ctorIdx
  name
    | unmarked => "None"
    | short => "Short"
  complete size := by cases size <;> decide
  dense := by decide
  label := "BranchSizeInfo"
  fits := by decide

/-- The mark as it is written. -/
def keyword : BranchSize → String
  | unmarked => ""
  | short => "short"

/-- The mark of a branch target of the given width: a target of eight bits is short. -/
def forTarget (width : UInt32) (mode : Mode) : BranchSize :=
  if mode.showBranchSize && width == 8 then short else unmarked

end BranchSize

end InstructionTables.Template
