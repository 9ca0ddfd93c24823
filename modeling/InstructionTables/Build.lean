import InstructionTables.Payload.Cursor
import InstructionTables.Report

/-! Building something from a whole payload. A build reads the payload from front to back
and adds to what it has made so far, and both are kept when it fails, so that the log tells
what was made before the fault. -/
namespace InstructionTables

/-- How far a build has come. -/
structure Build.State (σ : Type) where
  /-- Where the next record starts. -/
  cursor : Cursor
  /-- What has been made so far. -/
  made : σ

/-- A step of a build, which keeps its state also when it fails. -/
abbrev Build (σ : Type) := EStateM Fault (Build.State σ)

namespace Build

variable {σ α : Type}

/-- A read from the payload as a step of a build. -/
def ofRead (read : Read α) : Build σ α := fun state =>
  match read.run state.cursor with
  | .ok value cursor => .ok value { state with cursor }
  | .error fault cursor => .error fault { state with cursor }

/-- What has been made so far. -/
def made : Build σ σ :=
  return (← get).made

/-- The same build, where the payload has to end with it. -/
def toEnd (build : Build σ α) : Build σ α := do
  let value ← build
  ofRead Read.finish
  return value

/-- Runs a build on a payload of the given kind, to its end. The log holds the events of
what has been made and, where the build succeeds, the event of its completion, which is
told the result and the number of bytes read. -/
def report (build : Build σ α) (kind : PayloadKind) (payload : List UInt8) (nothing : σ)
    (events : σ → List Event) (completion : α → Nat → Event) : Report α :=
  match Cursor.afterHeader payload kind with
  | .error fault => { result := .error fault, log := events nothing }
  | .ok cursor =>
    match build.toEnd.run { cursor, made := nothing } with
    | .error fault state => { result := .error fault, log := events state.made }
    | .ok value state =>
      { result := .ok value
        log := events state.made ++ [completion value state.cursor.offset] }

end Build

end InstructionTables
