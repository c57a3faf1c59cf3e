import SymbolicTape.State
import SymbolicTape.Worklist

/-!
# Configuration and statistics of an exploration
-/

namespace SymbolicTape

/-- How a program is explored. -/
structure Config where
  /-- The number of cells on the tape. -/
  tapeCapacity : Nat := 30000
  /-- How the loops of a program text are matched when it is loaded. -/
  matching : Matching := .precomputed
  /-- Which path is run next. -/
  strategy : Strategy := .depthFirst
  /-- What happens when a value that depends on the input is written. -/
  outputPolicy : OutputPolicy := .rejectSymbolic
  /-- How many paths may wait at once. -/
  maximumLiveStates : Nat := 100000
  /-- How many completed and faulted paths are kept. -/
  maximumTerminalStates : Nat := 100000
  /-- How many instructions one call may execute, over all paths. -/
  maximumTotalSteps : Nat := 500000000
  /-- How many instructions a path executes before another one is chosen. -/
  stepsPerSlice : Nat := 10000
  /-- Whether paths that can be shown to be impossible are dropped. -/
  pruneInfeasible : Bool := false
  deriving DecidableEq

/-- Counters of the work done by an exploration. -/
structure Statistics where
  /-- The number of instructions executed, over all paths and calls. -/
  totalSteps : Nat := 0
  /-- The number of times that a path was run. -/
  slices : Nat := 0
  /-- The number of paths that split in two. -/
  forks : Nat := 0
  /-- The number of paths that were dropped as impossible. -/
  pruned : Nat := 0
  /-- The largest number of paths that were waiting at once. -/
  peakLiveStates : Nat := 0
  deriving DecidableEq

end SymbolicTape
