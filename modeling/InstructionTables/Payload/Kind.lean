import InstructionTables.Ordinal

/-! The two consumers that a payload can be made for. -/
namespace InstructionTables

/-- The consumer a payload is made for. -/
inductive PayloadKind where
  /-- The payload describes how opcode fields select a handler. -/
  | decoder
  /-- The payload describes how instructions are written as text. -/
  | formatter
deriving DecidableEq, Repr

namespace PayloadKind

instance : Tag PayloadKind where
  values := [decoder, formatter]
  ordinal := PayloadKind.ctorIdx
  name
    | decoder => "Decoder"
    | formatter => "Formatter"
  complete value := by cases value <;> decide
  dense := by decide
  label := "PayloadKind"
  fits := by decide

/-- The consumer as a message names it. -/
def text : PayloadKind → String
  | decoder => "decoder"
  | formatter => "formatter"

end PayloadKind

end InstructionTables
