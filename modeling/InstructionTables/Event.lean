import InstructionTables.Fault
import InstructionTables.Identifier
import InstructionTables.Template.Kind

/-! What a build logs. An event is recorded as data; its level and wording are decided here
and nowhere else. -/
namespace InstructionTables

/-- How much an event matters. -/
inductive Level where
  | trace
  | debug
  | error
deriving DecidableEq, Repr

/-- The level as a log line names it. -/
def Level.text : Level → String
  | trace => "TRACE"
  | debug => "DEBUG"
  | error => "ERROR"

/-- Something that a build logs. -/
inductive Event where
  /-- The array that a payload calls `reference` is complete. -/
  | arrayDefined (reference : UInt16) (array : ArrayId) (width : Nat)
  /-- A dispatch table is complete. -/
  | dispatchBuilt (slots arrays bytes : Nat)
  /-- A record that starts at `offset` emits `count` templates, the first of them at the
  position `first` of the table. -/
  | familyExpanded (kind : Template.Kind) (offset count first : Nat)
  /-- A template table is complete. -/
  | templatesBuilt (templates bytes : Nat)
  /-- Tables were asked for and could not be built. -/
  | buildFailed (fault : Fault)
deriving DecidableEq, Repr

namespace Event

/-- The level of an event. -/
def level : Event → Level
  | arrayDefined .. | familyExpanded .. => .trace
  | dispatchBuilt .. | templatesBuilt .. => .debug
  | buildFailed _ => .error

/-- The wording of an event. -/
def text : Event → String
  | arrayDefined reference array width =>
    s!"reference {reference} defines {array.text} with {width} slots"
  | dispatchBuilt slots arrays bytes =>
    s!"built dispatch table: {slots} slots, {arrays} arrays from {bytes} bytes"
  | familyExpanded kind offset count first =>
    s!"{Ordinal.name kind} at {Hexadecimal.text offset} emits {count} templates from id {first}"
  | templatesBuilt templates bytes =>
    s!"built template table: {templates} templates from {bytes} bytes"
  | buildFailed fault => s!"failed to build x86 tables: {fault.message}"

/-- An event as a line of a log. -/
def line (event : Event) : String :=
  s!"{event.level.text} {event.text}"

end Event

end InstructionTables
