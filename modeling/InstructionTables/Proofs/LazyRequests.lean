import InstructionTables.Tables

/-! Requests to one holder of tables. Whatever is asked for and in whatever order, the answers are
those of one build of the tables: where it succeeds, the first request for tables logs the build and
every later one finds the tables in the cell; where it fails, every request fails and logs alike, and
the cell stays empty. -/
namespace InstructionTables

/-! ## Builds -/

/-- Nothing is logged as an error. -/
def Report.Quiet (report : Report α) : Prop :=
  ∀ event ∈ report.log, event.level ≠ .error

theorem Report.Quiet.bind {first : Report α} {next : α → Report β} (quiet : first.Quiet)
    (others : ∀ value, (next value).Quiet) : (first >>= next).Quiet := by
  change (first.andThen next).Quiet
  rw [Report.andThen]
  split
  · exact quiet
  · rename_i value result
    intro event member
    rcases List.mem_append.mp member with earlier | later
    · exact quiet event earlier
    · exact others value event later

/-- What a holder can be asked for. -/
inductive Request where
  | get
  | getBuilt
deriving DecidableEq, Repr

/-- What a holder answers. -/
inductive Answer where
  | got (report : Report Tables)
  | built (tables : Option Tables)

namespace Request

/-- The answer to a request that is made after the tables were asked for or before. -/
def expected (build : Report Tables) (asked : Bool) : Request → Answer
  | get =>
    .got <| match build.result with
      | .ok tables => ⟨.ok tables, if asked then [] else build.log⟩
      | .error fault => ⟨.error fault, build.log ++ [.buildFailed fault]⟩
  | getBuilt => .built (if asked then build.result.toOption else none)

end Request

namespace LazyTables

variable {cell : OnceCell Tables} {holder : LazyTables cell} {source : Source} {asked : Bool}

/-- The answer to a request, and the holder after it. -/
def answer (holder : LazyTables cell) : Request → Answer × LazyTables cell
  | .get =>
    let (report, after) := holder.get
    (.got report, after)
  | .getBuilt => (.built holder.getBuilt, holder)

end LazyTables

end InstructionTables
