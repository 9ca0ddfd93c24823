import InstructionTables.Build
import InstructionTables.Template.Record

/-! Building a template table from a payload. Records are read until there is a template for
every instruction id; the last template emitted is the current one, which the next record
may repeat. -/
namespace InstructionTables.Template

/-! ## Emitted templates -/

/-- A family that has been emitted. -/
structure Expansion where
  kind : Kind
  /-- Where the record starts. -/
  offset : Nat
  count : Nat
  /-- The position of its first template. -/
  first : Nat
deriving DecidableEq, Repr

/-- The templates that have been emitted. -/
structure Emitted where
  /-- All templates, by their ids. -/
  templates : Array Template := #[]
  /-- The families among them, oldest first. -/
  expansions : Array Expansion := #[]
deriving DecidableEq, Repr

namespace Emitted

/-- The events of the families that have been emitted. -/
def events (emitted : Emitted) : List Event :=
  emitted.expansions.toList.map fun expansion =>
    .familyExpanded expansion.kind expansion.offset expansion.count expansion.first

/-- Adds a template, which takes the next id. -/
def push (emitted : Emitted) (template : Template) : Emitted :=
  { emitted with
    templates := emitted.templates.push { template with id := .ofIndex emitted.templates.size } }

/-- Adds the templates of a family whose record starts at `start`. -/
def expand (emitted : Emitted) (family : Family) (start : Nat) : Emitted :=
  let first := emitted.templates.size
  { templates := emitted.templates.appendList (family.templates first)
    expansions := emitted.expansions.push ⟨family.kind, start, family.count, first⟩ }

end Emitted

/-! ## Records -/

/-- Emits the current template once more, changed as the kind of the record asks. -/
def emitFold (kind : Kind) (change : Template → Template) (start : Nat) : Build Emitted Unit :=
  fun state =>
    match state.made.templates.back? with
    | some current => .ok () { state with made := state.made.push (change current) }
    | none => .error (Family.refuse kind start .noCurrentTemplate) state

/-- Emits the templates of a family if there are ids left for all of them. -/
def emitFamily (limit : Nat) (family : Family) (start : Nat) : Build Emitted Unit :=
  fun state =>
    let left := limit - state.made.templates.size
    if left < family.count then
      .error (Family.refuse family.kind start (.tooManyTemplates family.count left)) state
    else
      .ok () { state with made := state.made.expand family start }

/-- Emits the templates of a record that starts at `start`, where no more than `limit` are
emitted in all. -/
def emit (limit : Nat) (start : Nat) : Record → Build Emitted Unit
  | .previous => emitFold .previous (fun current => current) start
  | .reverse => emitFold .reverse reversed start
  | .family family => emitFamily limit family start

/-- Reads one record and emits its templates. -/
def readRecord (limit : Nat) : Build Emitted Unit := do
  let start ← Build.ofRead Read.offset
  emit limit start (← Build.ofRead Record.read)

/-- Reads records until `limit` templates are emitted. Every record emits at least one, so
that `fuel` records are enough when as many templates are missing. -/
def readRecords (limit : Nat) : (fuel : Nat) → Build Emitted Unit
  | 0 => return ()
  | fuel + 1 => do
    if (← Build.made).templates.size < limit then
      readRecord limit
      readRecords limit fuel

/-! ## Tables -/

/-- Reads the records of a whole table. -/
def readTable (instructionCount : Nat) : Build Emitted Table := do
  readRecords instructionCount instructionCount
  return ⟨(← Build.made).templates⟩

namespace Table

/-- The event of a complete table. -/
def completion (table : Table) (bytes : Nat) : Event :=
  .templatesBuilt table.templates.size bytes

/-- Builds a table with the given number of templates from a payload. -/
def build (payload : List UInt8) (instructionCount : Nat) : Report Table :=
  (readTable instructionCount).report .formatter payload {} Emitted.events completion

/-- The table that a payload describes. -/
def ofBytes (payload : List UInt8) (instructionCount : Nat) : Except Fault Table :=
  (build payload instructionCount).result

end Table

end InstructionTables.Template
