import InstructionTables.Report

/-! Cells that are given a value at most once. How a cell keeps its value is left open; what is
relied on is that it keeps a value that a build yields, forgets a fault, and runs no build where it
has a value. -/
namespace InstructionTables

/-- A kind of cell for values of a type. -/
structure OnceCell (α : Type) where
  /-- What a cell can be like. -/
  State : Type
  /-- A cell that has been given no value. -/
  empty : State
  /-- The value of a cell, if it has one. -/
  get : State → Option α
  /-- The value of a cell, built where it has none, and the cell after the request. -/
  getOrTryInit : State → Report α → Report α × State

namespace OnceCell

variable {α : Type}

/-- The cell that is its value or nothing. -/
def plain (α : Type) : OnceCell α where
  State := Option α
  empty := none
  get state := state
  getOrTryInit state build :=
    match state with
    | some value => (pure value, some value)
    | none => (build, build.result.toOption)

end OnceCell

end InstructionTables
