import InstructionTables.Dispatch.Build
import InstructionTables.OnceCell
import InstructionTables.Template.Build

/-! Both tables of an instruction set, and tables that are built when they are first asked
for. Tables that have been built are kept; a build that fails is not remembered, so that the
next request builds again. -/
namespace InstructionTables

/-- The payloads that tables are built from, and what is known about the tables beforehand. -/
structure Source where
  /-- The payload of the dispatch table. -/
  decoder : List UInt8
  dispatch : Dispatch.Config
  /-- The payload of the template table. -/
  formatter : List UInt8
  /-- The number of templates. -/
  instructionCount : Nat
deriving DecidableEq, Repr

/-- The tables of an instruction set. -/
structure Tables where
  dispatch : Dispatch.Table
  templates : Template.Table
deriving DecidableEq, Repr

/-- Builds the dispatch table and then, if that succeeds, the template table. -/
def Tables.build (source : Source) : Report Tables := do
  let dispatch ← Dispatch.Table.build source.decoder source.dispatch
  let templates ← Template.Table.build source.formatter source.instructionCount
  return { dispatch, templates }

/-- Tables that are built when they are first asked for, and kept in a cell. -/
structure LazyTables (cell : OnceCell Tables := .plain Tables) where
  source : Source
  /-- The cell, which holds the tables once they have been built. -/
  state : cell.State := cell.empty

namespace LazyTables

variable {cell : OnceCell Tables}

/-- The tables if they have been built. Nothing is built for the answer. -/
def getBuilt (holder : LazyTables cell) : Option Tables :=
  cell.get holder.state

/-- The tables, built if they were not, and the holder after the request. -/
def get (holder : LazyTables cell) : Report Tables × LazyTables cell :=
  let (report, state) := cell.getOrTryInit holder.state (Tables.build holder.source).noteFailure
  (report, { holder with state })

end LazyTables

end InstructionTables
