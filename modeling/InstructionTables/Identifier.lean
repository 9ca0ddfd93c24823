/-! The numbers that tables use for things of different kinds. Each kind has a type of its
own, so that a handler is never mistaken for an array or a mnemonic for an operand. -/
namespace InstructionTables

/-- A routine that decodes the operands of an instruction. -/
structure HandlerId where
  value : UInt16 := 0
deriving DecidableEq, Ord, Repr, Inhabited

/-- An array of a dispatch table. -/
structure ArrayId where
  value : UInt32 := 0
deriving DecidableEq, Ord, Repr, Inhabited

/-- An instruction form. -/
structure InstructionId where
  value : UInt32 := 0
deriving DecidableEq, Ord, Repr, Inhabited

/-- A mnemonic of a string table kept elsewhere. -/
structure MnemonicRef where
  value : UInt16 := 0
deriving DecidableEq, Ord, Repr, Inhabited

/-- An operand description kept elsewhere. -/
structure OperandRef where
  value : UInt16 := 0
deriving DecidableEq, Ord, Repr, Inhabited

namespace HandlerId

/-- The position of the handler in a list of handlers. -/
def index (id : HandlerId) : Nat := id.value.toNat

/-- The id as a message shows it. -/
def text (id : HandlerId) : String := s!"handler {id.value}"

end HandlerId

namespace ArrayId

/-- The position of the array in the arena of its table. -/
def index (id : ArrayId) : Nat := id.value.toNat

/-- The id as a message shows it. -/
def text (id : ArrayId) : String := s!"array {id.value}"

/-- The array at a position of the arena. -/
def ofIndex (index : Nat) : ArrayId := ⟨UInt32.ofNat index⟩

end ArrayId

namespace InstructionId

/-- The position of the instruction form in its table. -/
def index (id : InstructionId) : Nat := id.value.toNat

/-- The id as a message shows it. -/
def text (id : InstructionId) : String := s!"{id.value}"

/-- The instruction form at a position of the table. -/
def ofIndex (index : Nat) : InstructionId := ⟨UInt32.ofNat index⟩

end InstructionId

namespace MnemonicRef

/-- The position of the mnemonic in its string table. -/
def index (reference : MnemonicRef) : Nat := reference.value.toNat

/-- The reference as a message shows it. -/
def text (reference : MnemonicRef) : String := s!"mnemonic {reference.value}"

end MnemonicRef

namespace OperandRef

/-- The position of the operand description in its list. -/
def index (reference : OperandRef) : Nat := reference.value.toNat

/-- The reference as a message shows it. -/
def text (reference : OperandRef) : String := s!"operand {reference.value}"

end OperandRef

end InstructionTables
