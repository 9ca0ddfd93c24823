import InstructionTables.Template.Flags
import InstructionTables.Template.Size

/-! The kinds of template record. The kind of a record is its tag, and it fixes the shape of
the record: what is stored after the tag, and how many templates the record emits. -/
namespace InstructionTables.Template

/-- The kind of a template record. -/
inductive Kind where
  /-- Repeats the current template. -/
  | previous
  | normal1
  | normal2
  | aamAad
  | asz
  | string
  | stig2_2b
  | bcst
  | bnd
  | signExt4
  | declareData
  | xlat
  | er2
  | er3
  | far
  | farMem
  | invlpga
  | maskmovq
  | signExt3
  | stig1
  | stig2_2a
  | movabs
  | sae
  | nop
  | opSize
  | opSize2Bnd
  | opSize3
  | os2
  | os3
  | osCall
  | pushImm
  | cc1
  | cc2
  | cc3
  | osJccA1
  | osJccA2
  | osJccA3
  | osJccB1
  | osJccB2
  | osJccB3
  | osLoopcc
  | osLoop
  | osMem
  | osMemReg16
  | osMem2
  | pblendvb
  | pushImm8
  | pclmulqdq
  | pops
  | imul
  | reg16
  | reg32
  /-- Repeats the current template with its operands in reverse order. -/
  | reverse
deriving DecidableEq, Repr

/-- What a record emits. -/
inductive Emission where
  /-- The current template once more. -/
  | previous
  /-- The current template with its operands reversed. -/
  | reverse
  /-- One template. -/
  | one
  /-- A template for each operand size. -/
  | sizes (listed : List OperandSize)
  /-- A template for each of `count` spellings of a condition code. -/
  | conditionCodes (count : Nat)
  /-- A template for each of `count` values of an immediate operand that have a mnemonic
  of their own. -/
  | pseudoOps (count : Nat)
  /-- As for `pseudoOps`, where the record stores the count after its operands. -/
  | countedPseudoOps
deriving DecidableEq, Repr

namespace Emission

/-- Whether a record of this emission repeats the current template and stores nothing. -/
def isFold : Emission → Bool
  | previous | reverse => true
  | _ => false

/-- The number of templates emitted, unless the record stores it. -/
def count? : Emission → Option Nat
  | previous | reverse | one => some 1
  | sizes listed => some listed.length
  | conditionCodes count | pseudoOps count => some count
  | countedPseudoOps => none

/-- The most templates that a record may say it emits. -/
def maxStoredCount : UInt32 := 32

end Emission

/-- The shape of the records of one kind. A record that is no fold stores a mnemonic, its
operands, then a width if `hasWidth`, or a count if the emission asks for one. -/
structure Shape where
  /-- The number of operands stored. -/
  operands : Nat
  /-- Whether an operand width is stored. -/
  hasWidth : Bool
  emission : Emission
  /-- The flags of every template emitted. -/
  flags : Flags
deriving DecidableEq, Repr

namespace Shape

/-- The shape of records that emit one template. -/
def single (operands : Nat) (hasWidth : Bool) (flags : List Flag) : Shape :=
  ⟨operands, hasWidth, .one, .ofList flags⟩

/-- The shape of records with one operand that emit a template for each size. -/
def sized (listed : List OperandSize) (flags : List Flag) : Shape :=
  ⟨1, false, .sizes listed, .ofList flags⟩

/-- The shape of records with one operand that emit a template for each spelling of a
condition code. -/
def conditional (count : Nat) (hasWidth : Bool) (flags : List Flag) : Shape :=
  ⟨1, hasWidth, .conditionCodes count, .ofList flags⟩

end Shape

namespace Kind

instance : Tag Kind where
  values := [previous, normal1, normal2, aamAad, asz, string, stig2_2b, bcst, bnd, signExt4,
    declareData, xlat, er2, er3, far, farMem, invlpga, maskmovq, signExt3, stig1, stig2_2a,
    movabs, sae, nop, opSize, opSize2Bnd, opSize3, os2, os3, osCall, pushImm, cc1, cc2, cc3,
    osJccA1, osJccA2, osJccA3, osJccB1, osJccB2, osJccB3, osLoopcc, osLoop, osMem, osMemReg16,
    osMem2, pblendvb, pushImm8, pclmulqdq, pops, imul, reg16, reg32, reverse]
  ordinal := Kind.ctorIdx
  name
    | previous => "Previous"
    | normal1 => "Normal_1"
    | normal2 => "Normal_2"
    | aamAad => "AamAad"
    | asz => "asz"
    | string => "String"
    | stig2_2b => "STIG2_2b"
    | bcst => "bcst"
    | bnd => "bnd"
    | signExt4 => "SignExt_4"
    | declareData => "DeclareData"
    | xlat => "XLAT"
    | er2 => "er_2"
    | er3 => "er_3"
    | far => "far"
    | farMem => "far_mem"
    | invlpga => "invlpga"
    | maskmovq => "maskmovq"
    | signExt3 => "SignExt_3"
    | stig1 => "STIG1"
    | stig2_2a => "STIG2_2a"
    | movabs => "movabs"
    | sae => "sae"
    | nop => "nop"
    | opSize => "OpSize"
    | opSize2Bnd => "OpSize2_bnd"
    | opSize3 => "OpSize3"
    | os2 => "os_2"
    | os3 => "os_3"
    | osCall => "os_call"
    | pushImm => "push_imm"
    | cc1 => "CC_1"
    | cc2 => "CC_2"
    | cc3 => "CC_3"
    | osJccA1 => "os_jcc_a_1"
    | osJccA2 => "os_jcc_a_2"
    | osJccA3 => "os_jcc_a_3"
    | osJccB1 => "os_jcc_b_1"
    | osJccB2 => "os_jcc_b_2"
    | osJccB3 => "os_jcc_b_3"
    | osLoopcc => "os_loopcc"
    | osLoop => "os_loop"
    | osMem => "os_mem"
    | osMemReg16 => "os_mem_reg16"
    | osMem2 => "os_mem2"
    | pblendvb => "pblendvb"
    | pushImm8 => "push_imm8"
    | pclmulqdq => "pclmulqdq"
    | pops => "pops"
    | imul => "imul"
    | reg16 => "Reg16"
    | reg32 => "Reg32"
    | reverse => "reverse"
  complete kind := by cases kind <;> decide
  dense := by decide
  label := "CtorKind"
  fits := by decide

/-- The shape of the records of a kind. -/
def shape : Kind → Shape
  | previous => ⟨0, false, .previous, .empty⟩
  | reverse => ⟨0, false, .reverse, .empty⟩
  | normal1 => .single 1 false []
  | normal2 => .single 2 false []
  | aamAad => .single 1 false [.hideDefaultImm]
  | asz => .single 1 true [.addressSize]
  | string => .single 0 false [.string]
  | stig2_2b => .single 2 false [.stImplicit, .reverseOperands]
  | bcst => .single 2 false [.broadcast]
  | bnd => .single 1 false [.bndPrefix]
  | signExt4 => .single 4 false [.signExtendImm]
  | declareData => .single 0 false [.declareData]
  | xlat => .single 0 false [.implicitMemory]
  | er2 => .single 2 false [.rounding]
  | er3 => .single 3 false [.rounding]
  | far => .single 1 true [.far]
  | farMem => .single 1 true [.far, .memory]
  | invlpga => .single 2 true [.addressSize]
  | maskmovq => .single 2 true [.implicitMemory, .addressSize]
  | signExt3 => .single 3 false [.signExtendImm]
  | stig1 => .single 1 false [.stImplicit]
  | stig2_2a => .single 2 false [.stImplicit]
  | movabs => .single 2 false [.absoluteAddress]
  | sae => .single 2 false [.sae]
  | nop => .single 1 true []
  | opSize => .single 0 true []
  | opSize2Bnd => .single 0 true [.bndPrefix]
  | opSize3 => .single 1 true []
  | os2 => .sized [.bits16, .bits32] []
  | os3 => .sized [.bits16, .bits32, .bits64] []
  | osCall => .sized [.bits16, .bits32, .bits64] [.branch]
  | pushImm => .sized [.bits16, .bits32, .bits64] []
  | cc1 => .conditional 1 false [.conditionCode]
  | cc2 => .conditional 2 false [.conditionCode]
  | cc3 => .conditional 3 false [.conditionCode]
  | osJccA1 => .conditional 1 true [.branch, .conditionCode]
  | osJccA2 => .conditional 2 true [.branch, .conditionCode]
  | osJccA3 => .conditional 3 true [.branch, .conditionCode]
  | osJccB1 => .conditional 1 true [.branch, .conditionCode, .bndPrefix]
  | osJccB2 => .conditional 2 true [.branch, .conditionCode, .bndPrefix]
  | osJccB3 => .conditional 3 true [.branch, .conditionCode, .bndPrefix]
  | osLoopcc => .conditional 2 true [.branch, .conditionCode]
  | osLoop => .single 1 true [.branch]
  | osMem => .sized [.bits16, .bits32, .bits64] [.memory]
  | osMemReg16 => .sized [.bits16, .bits32, .bits64] [.memory, .reg16]
  | osMem2 => .sized [.bits16, .bits32] [.memory]
  | pblendvb => .single 2 false [.implicitXmm0]
  | pushImm8 => .sized [.bits16, .bits32, .bits64] [.signExtendImm]
  | pclmulqdq => ⟨3, false, .pseudoOps 4, .ofList [.pseudoOps]⟩
  | pops => ⟨2, false, .countedPseudoOps, .ofList [.pseudoOps]⟩
  | imul => .single 3 false [.hideDuplicateOperand]
  | reg16 => .sized [.bits16] [.reg16]
  | reg32 => .sized [.bits32] [.reg32]

/-- The number of operands of every template emitted, unless they are inherited. -/
def operandCount? (kind : Kind) : Option Nat :=
  if kind.shape.emission.isFold then none else some kind.shape.operands

/-- The number of templates emitted, unless the record stores it. -/
def emissionCount? (kind : Kind) : Option Nat :=
  kind.shape.emission.count?

end Kind

end InstructionTables.Template
