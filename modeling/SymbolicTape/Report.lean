import SymbolicTape.Constraint.SmtLib
import SymbolicTape.Exploration

/-!
# Reports

A report describes the result of an exploration by plain numbers and texts, so
that it can be stored and compared.
-/

namespace SymbolicTape

/-- How a path ended. -/
inductive PathStatus
  /-- It reached the end of the program. -/
  | completed
  /-- It faulted. -/
  | errored
  /-- It was left unexplored. -/
  | unexplored
  deriving DecidableEq

/-- A cell that does not hold zero. -/
structure CellReport where
  /-- The index of the cell. -/
  index : Nat
  /-- The text of its value. -/
  value : String
  deriving DecidableEq

/-- A description of one path. -/
structure PathReport where
  /-- The identity of the path. -/
  identifier : Identifier
  /-- The path that it was forked from. -/
  parent : Option Identifier
  /-- How it ended. -/
  status : PathStatus
  /-- The text of its constraint. -/
  constraint : String
  /-- Its constraint as an SMT-LIB script. -/
  smtLib : String
  /-- The index of the next instruction, which is the one that faulted if one
  did. -/
  instructionPointer : Nat
  /-- The position of the head. -/
  pointer : Int64
  /-- The texts of the values written. -/
  output : List String
  /-- The bytes written, if all are known. -/
  outputBytes : Option (List UInt8)
  /-- The cells that do not hold zero. -/
  cells : List CellReport
  /-- The text of the fault. -/
  error : Option String
  deriving DecidableEq

/-- A description of a whole exploration. -/
structure Summary where
  /-- The number of paths that reached the end of the program. -/
  completed : Nat
  /-- The number of paths that faulted. -/
  errored : Nat
  /-- The number of paths left unexplored. -/
  unexplored : Nat
  /-- Why the exploration stopped early, if it did. -/
  truncation : Option String
  /-- Counters of the work done. -/
  statistics : Statistics
  /-- The paths: completed ones, then faulted ones, then unexplored ones. -/
  paths : List PathReport
  deriving DecidableEq

namespace PathReport

/-- Describe a path. -/
def ofPath
    (path : Path)
    (status : PathStatus)
    (fault : Option (Located Fault)) : PathReport :=
  let state := path.state
  { identifier := path.identifier
    parent := path.parent
    status := status
    constraint := state.constraint.render
    smtLib := state.constraint.smtLib
    instructionPointer := state.instructionPointer
    pointer := state.pointer
    output := state.output.toList.map Value.render
    outputBytes := state.outputBytes?.map Array.toList
    cells := state.tape.nonZeroCells.map fun (index, value) =>
      { index := index, value := value.render }
    error := fault.map fun fault => fault.render Fault.message }

end PathReport

namespace Summary

/-- Describe an exploration. -/
def ofExploration (exploration : Exploration) : Summary :=
  { completed := exploration.completed.length
    errored := exploration.errored.length
    unexplored := exploration.unexplored.length
    truncation := exploration.truncation.map Truncation.message
    statistics := exploration.statistics
    paths :=
      exploration.completed.map (PathReport.ofPath · .completed none)
        ++ exploration.errored.map (fun faulted =>
          PathReport.ofPath faulted.path .errored (some faulted.fault))
        ++ exploration.unexplored.map
          (PathReport.ofPath · .unexplored none) }

end Summary
end SymbolicTape
