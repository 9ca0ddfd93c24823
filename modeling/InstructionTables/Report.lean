import InstructionTables.Event

/-! The outcome of a build together with what it logged, which is kept whether the build
succeeds or not. Builds that follow one another log in that order, and the first that fails
is the last. -/
namespace InstructionTables

/-- What a build yields and logs. -/
structure Report (α : Type) where
  result : Except Fault α
  /-- The events of the build, oldest first. -/
  log : List Event := []

namespace Report

variable {α β : Type}

/-- A result that was already there. -/
def ofValue (value : α) : Report α := { result := .ok value }

/-- A build followed by one that depends on its result. -/
def andThen (first : Report α) (next : α → Report β) : Report β :=
  match first.result with
  | .error fault => { result := .error fault, log := first.log }
  | .ok value =>
    let second := next value
    { second with log := first.log ++ second.log }

instance : Monad Report where
  pure := ofValue
  bind := andThen

/-- The report with one more event where the build fails. -/
def noteFailure (report : Report α) : Report α :=
  match report.result with
  | .error fault => { report with log := report.log ++ [.buildFailed fault] }
  | .ok _ => report

end Report

end InstructionTables
