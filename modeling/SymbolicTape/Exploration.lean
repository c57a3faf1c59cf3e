import SymbolicTape.Engine.Execution
import SymbolicTape.ErrorList

/-!
# Results of an exploration

An exploration ends with every path completed, faulted or, if it was stopped
early, left unexplored.
-/

namespace SymbolicTape

/-- What an exploration found. -/
structure Exploration where
  /-- The program. -/
  program : Program
  /-- The paths that reached the end of the program, oldest first. -/
  completed : List Path
  /-- The paths that faulted, oldest first. -/
  errored : List FaultedPath
  /-- The paths that were left on the worklist, front to back. -/
  unexplored : List Path
  /-- Why the exploration stopped early, if it did. -/
  truncation : Option Truncation
  /-- Counters of the work done. -/
  statistics : Statistics

namespace Exploration

/-- Whether every path was followed to its end. -/
def isExhaustive (exploration : Exploration) : Bool :=
  exploration.truncation.isNone && exploration.unexplored.isEmpty

/-- The faults of all paths, by location; faults of one location stay in the
order in which they arose. -/
def errors (exploration : Exploration) : ErrorList Error :=
  (ErrorList.collect (exploration.errored.map FaultedPath.fault)).map
    Error.execution

end Exploration

namespace Engine

/-- What the engine has found so far. -/
def result (engine : Engine) : Exploration :=
  { program := engine.program
    completed := engine.completed.toList
    errored := engine.faulted.toList
    unexplored := engine.pending
    truncation := engine.truncation
    statistics := engine.statistics }

end Engine

namespace Program

/-- Explore a loaded program on a tape of the given capacity, with all other
settings at their defaults.  The journal comes with the result. -/
def explore
    (program : Program)
    (tapeCapacity : Nat)
    (names : Names := .counting 0) : Exploration × Journal :=
  let config : Config := { tapeCapacity := tapeCapacity }
  let (stopped, engine) := (Engine.create program config .idle names).execute
  let engine := match stopped with
    | none => engine
    | some _ => engine.record .partialResult
  (engine.result, engine.journal)

end Program
end SymbolicTape
