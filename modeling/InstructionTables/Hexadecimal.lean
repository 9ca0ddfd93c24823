/-! Numbers in base sixteen, as messages show offsets and magic numbers. -/
namespace InstructionTables.Hexadecimal

/-- A number in lower-case hexadecimal after `0x`, padded with zeros to at least the given
number of digits. -/
def text (number : Nat) (digits : Nat := 1) : String :=
  "0x" ++ String.ofList ((Nat.toDigits 16 number).leftpad digits '0')

end InstructionTables.Hexadecimal
