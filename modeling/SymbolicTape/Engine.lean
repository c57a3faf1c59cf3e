import SymbolicTape.Config
import SymbolicTape.Constraint.Feasibility
import SymbolicTape.Journal
import SymbolicTape.Path
import SymbolicTape.Watchdog

/-!
# The exploration engine

The engine keeps the paths that are still to be run on a worklist.  In every
turn it takes one, runs it for a slice and files what comes out: completed and
faulted paths are kept, a path that has not finished goes back, and a fork puts
both sides on the worklist.  A call of `Engine.execute` takes turns until the
worklist is empty or until a limit or the watchdog stops it.  What has not been
run stays on the worklist, and another call goes on with it.

Every turn executes an instruction or leaves the worklist shorter, which is why
a call always ends.
-/

namespace SymbolicTape

/-- An exploration under way. -/
structure Engine where
  /-- The program. -/
  program : Program
  /-- How the program is explored. -/
  config : Config
  /-- Who may stop the exploration. -/
  watchdog : Watchdog
  /-- The paths that are still to be run. -/
  worklist : Worklist Path
  /-- The paths that reached the end of the program, oldest first. -/
  completed : Array Path := #[]
  /-- The paths that faulted, oldest first. -/
  faulted : Array FaultedPath := #[]
  /-- Counters of the work done. -/
  statistics : Statistics := { peakLiveStates := 1 }
  /-- Why the last call stopped early, if it did. -/
  truncation : Option Truncation := none
  /-- How often the watchdog was asked. -/
  polls : Nat := 0
  /-- Where the names of further paths come from. -/
  names : Names
  /-- What happened so far. -/
  journal : Journal := #[]

namespace Engine

/-- Add an event to the journal. -/
def record (event : Event) (engine : Engine) : Engine :=
  { engine with journal := engine.journal.push event }

/-- The engine before the first call, with the one path that starts at the
first instruction.  Loops are matched as the program was loaded. -/
def create
    (program : Program)
    (config : Config)
    (watchdog : Watchdog)
    (names : Names := .counting 0) : Engine :=
  let engine : Engine :=
    { program := program
      config := config
      watchdog := watchdog
      worklist :=
        (Worklist.empty config.strategy).push
          (Path.initial names config.tapeCapacity)
      names := names.skip 1 }
  if program.matching = config.matching then
    engine
  else
    engine.record (.matchingDiffers program.matching config.matching)

/-- The paths on the worklist, front to back. -/
def pending (engine : Engine) : List Path := engine.worklist.toList

/-- Whether nothing is left to be run. -/
def isComplete (engine : Engine) : Bool := engine.worklist.isEmpty

/-- The number of paths that have ended. -/
def terminalCount (engine : Engine) : Nat :=
  engine.completed.size + engine.faulted.size

/-- Return a path that was taken from the worklist without running it; `rest` is
the worklist without the path. -/
def putBack (path : Path) (rest : Worklist Path) (engine : Engine) : Engine :=
  { engine with worklist := rest.putBack path }

/-- Stop a call early. -/
def truncate (reason : Truncation) (engine : Engine) : Engine :=
  { engine.record (.truncated engine.worklist.size reason) with
    truncation := some reason }

/-- Ask the watchdog. -/
def poll (engine : Engine) : Bool × Engine :=
  (engine.watchdog.shouldStop engine.polls,
    { engine with polls := engine.polls + 1 })

/-- Whether a side of a fork is dropped. -/
def isPruned (engine : Engine) (path : Path) : Bool :=
  engine.config.pruneInfeasible
    && path.state.constraint.feasibility.isInfeasible

/-- Look at a side of a fork.  The side is the result, unless it is dropped,
which is counted. -/
def inspect (path : Path) (engine : Engine) : Option Path × Engine :=
  let engine := match path.state.constraint.newest? with
    | none => engine
    | some clause =>
        engine.record (.forkedOff path.identifier path.parent clause)
  if engine.isPruned path then
    let engine :=
      engine.record (.pruned path.identifier path.state.constraint)
    (none,
      { engine with
        statistics :=
          { engine.statistics with pruned := engine.statistics.pruned + 1 } })
  else
    (some path, engine)

/-- File the two sides of a fork, so that the side on which the cell is zero is
taken first. -/
def fileFork (zero nonZero : Path) (engine : Engine) : Engine :=
  let (zero, engine) := engine.inspect zero
  let (nonZero, engine) := engine.inspect nonZero
  let worklist := engine.worklist.pushSides zero nonZero
  { engine with
    worklist := worklist
    names := engine.names.skip 2
    statistics :=
      { engine.statistics with
        forks := engine.statistics.forks + 1
        peakLiveStates :=
          max engine.statistics.peakLiveStates worklist.size } }

/-- File what came out of a slice of the path with the given identifier. -/
def file
    (identifier : Identifier)
    (outcome : Outcome Path)
    (engine : Engine) : Engine :=
  match outcome with
  | .advanced path => { engine with worklist := engine.worklist.push path }
  | .done path =>
      let engine := engine.record (.completed identifier path.state.constraint)
      { engine with completed := engine.completed.push path }
  | .faulted path fault =>
      let engine := engine.record (.stepFaulted identifier fault)
      let engine := engine.record (.faulted identifier fault)
      { engine with faulted := engine.faulted.push ⟨path, fault⟩ }
  | .forked location zero nonZero =>
      (engine.record (.split identifier location zero.identifier
        nonZero.identifier)).fileFork zero nonZero

/-- Why a call has to stop after a slice was filed.  Only a fork can bring the
number of waiting paths above its limit. -/
def overflow? (engine : Engine) : Outcome Path -> Option Truncation
  | .forked _ _ _ =>
      if engine.config.maximumLiveStates < engine.worklist.size then
        some (.liveStateLimit engine.config.maximumLiveStates)
      else
        none
  | _ => none

/-- Run a path that was taken from the worklist. -/
def runSlice (engine : Engine) (budget : Nat) (path : Path) : Slice Path :=
  path.step engine.program engine.config.outputPolicy engine.names budget

/-- The engine after a slice: `rest` is the worklist without the path. -/
def afterSlice
    (engine : Engine)
    (path : Path)
    (rest : Worklist Path)
    (slice : Slice Path) : Engine :=
  let engine :=
    engine.record (.running path.identifier path.state.instructionPointer)
  file path.identifier slice.outcome
    { engine with
      worklist := rest
      statistics :=
        { engine.statistics with
          totalSteps := engine.statistics.totalSteps + slice.executed
          slices := engine.statistics.slices + 1 } }

/-- A call under way. -/
structure Call where
  /-- The engine. -/
  engine : Engine
  /-- The number of turns so far. -/
  turns : Nat := 0
  /-- The number of instructions that may still be executed. -/
  remaining : Nat

/-- What a turn leads to. -/
inductive Turn
  /-- Nothing is left to be run. -/
  | finished (engine : Engine)
  /-- The call stops early. -/
  | truncated (reason : Truncation) (engine : Engine)
  /-- The call goes on. -/
  | next (call : Call)

namespace Call

/-- Ask the watchdog if it is time to. -/
def poll (turns : Nat) (engine : Engine) : Bool × Engine :=
  if turns % max 1 engine.watchdog.pollEvery = 0 then
    engine.poll
  else
    (false, engine)

/-- The number of instructions of the next slice. -/
def budget (remaining : Nat) (engine : Engine) : Nat :=
  min (max 1 engine.config.stepsPerSlice) remaining

/-- Run one path for a slice; `rest` is the worklist without it. -/
def runTurn
    (engine : Engine)
    (turns remaining : Nat)
    (path : Path)
    (rest : Worklist Path) : Turn :=
  let slice := engine.runSlice (budget remaining engine) path
  let engine := engine.afterSlice path rest slice
  match engine.overflow? slice.outcome with
  | some reason => .truncated reason (engine.truncate reason)
  | none => .next ⟨engine, turns + 1, remaining - slice.executed⟩

/-- One turn.  The watchdog, the limit on ended paths and the limit on
instructions are looked at in this order; if one of them stops the call, the
path is put back on the worklist. -/
def turn (call : Call) : Turn :=
  let ⟨engine, turns, remaining⟩ := call
  match engine.worklist.take? with
  | none =>
      .finished (engine.record
        (.finished engine.completed.size engine.faulted.size
          engine.statistics.totalSteps))
  | some (path, rest) =>
      let (stopped, engine) := poll turns engine
      if stopped then
        .truncated .stoppedByWatchdog
          ((engine.putBack path rest).truncate .stoppedByWatchdog)
      else if engine.config.maximumTerminalStates ≤ engine.terminalCount then
        let reason :=
          Truncation.terminalStateLimit engine.config.maximumTerminalStates
        .truncated reason ((engine.putBack path rest).truncate reason)
      else if remaining = 0 then
        let reason := Truncation.stepLimit engine.config.maximumTotalSteps
        .truncated reason ((engine.putBack path rest).truncate reason)
      else
        runTurn engine turns remaining path rest

end Call
end Engine
end SymbolicTape
