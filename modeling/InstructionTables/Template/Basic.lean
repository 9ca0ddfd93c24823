import InstructionTables.Identifier
import InstructionTables.Template.Kind

/-! Templates, each of which describes how one instruction form is written as text, and the
table that holds one for every instruction id. -/
namespace InstructionTables

/-- How an instruction form is written. -/
structure Template where
  /-- The instruction form, which is the position of the template in its table. -/
  id : InstructionId
  /-- The kind of record the template comes from. -/
  kind : Template.Kind
  mnemonic : MnemonicRef
  /-- The position among the templates that the same record emits. -/
  variant : UInt8
  /-- The operand size that the template stands for. -/
  size : Template.OperandSize
  /-- The operands in the order in which they are stored. -/
  operands : List OperandRef
  flags : Template.Flags
deriving DecidableEq, Repr

namespace Template

/-- The template with its operands in reverse order. What was written in reverse order
before is now written in order. -/
def reversed (template : Template) : Template :=
  { template with
    kind := .reverse
    operands := template.operands.reverse
    flags := template.flags.toggle .reverseOperands }

/-- The templates of all instruction forms. -/
structure Table where
  templates : Array Template
deriving DecidableEq, Repr

/-- The template of an instruction form, if the table has one. -/
def Table.get? (table : Table) (id : InstructionId) : Option Template :=
  table.templates[id.index]?

end Template

end InstructionTables
