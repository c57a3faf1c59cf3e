import SymbolicTape.Constraint
import SymbolicTape.Identifier
import SymbolicTape.Program

/-!
# Journal

The journal says what an exploration did, one event after the other.  An event
names the paths that it is about by their identifiers, and its text can show
them under any name.
-/

namespace SymbolicTape

/-- How much an event matters. -/
inductive Severity
  | trace
  | debug
  | info
  | warn
  deriving DecidableEq

namespace Severity

/-- The name of a severity. -/
def name : Severity -> String
  | .trace => "TRACE"
  | .debug => "DEBUG"
  | .info => "INFO"
  | .warn => "WARN"

/-- The place of a severity, the least severe one first. -/
def rank : Severity -> Nat
  | .trace => 0
  | .debug => 1
  | .info => 2
  | .warn => 3

end Severity

/-- Something that happened during an exploration. -/
inductive Event
  /-- A program text was loaded. -/
  | loaded (size : Nat) (matching : Matching)
  /-- The loops of the program are not matched as the configuration asks. -/
  | matchingDiffers (actual configured : Matching)
  /-- A call began. -/
  | started (size pending : Nat)
  /-- A path was chosen to run. -/
  | running (path : Identifier) (location : Nat)
  /-- An instruction of a path faulted. -/
  | stepFaulted (path : Identifier) (fault : Located Fault)
  /-- A path split in two. -/
  | split (path : Identifier) (location : Nat) (zero nonZero : Identifier)
  /-- A path reached the end of the program. -/
  | completed (path : Identifier) (constraint : Constraint)
  /-- A path was filed with its fault. -/
  | faulted (path : Identifier) (fault : Located Fault)
  /-- A side of a fork was looked at. -/
  | forkedOff
      (path : Identifier) (parent : Option Identifier) (clause : Predicate)
  /-- A side of a fork was dropped. -/
  | pruned (path : Identifier) (constraint : Constraint)
  /-- A call stopped early. -/
  | truncated (pending : Nat) (reason : Truncation)
  /-- A call ran out of paths. -/
  | finished (completedCount erroredCount totalSteps : Nat)
  /-- The exploration of a program text stopped early. -/
  | unfinished (reason : Truncation)
  /-- The result of a program is returned although it is not complete. -/
  | partialResult

namespace Event

/-- How much an event matters. -/
def severity : Event -> Severity
  | .loaded _ _ => .debug
  | .matchingDiffers _ _ => .warn
  | .started _ _ => .info
  | .running _ _ => .trace
  | .stepFaulted _ _ => .trace
  | .split _ _ _ _ => .trace
  | .completed _ _ => .debug
  | .faulted _ _ => .debug
  | .forkedOff _ _ _ => .debug
  | .pruned _ _ => .warn
  | .truncated _ _ => .warn
  | .finished _ _ _ => .info
  | .unfinished _ => .warn
  | .partialResult => .debug

/-- The paths that the text of an event names, in the order of the text. -/
def paths : Event -> List Identifier
  | .running path _ => [path]
  | .stepFaulted path _ => [path]
  | .split path _ zero nonZero => [path, zero, nonZero]
  | .completed path _ => [path]
  | .faulted path _ => [path]
  | .forkedOff path parent _ => path :: parent.toList
  | .pruned path _ => [path]
  | _ => []

/-- The text of an event, with paths shown under a name. -/
def message (name : Identifier -> String) : Event -> String
  | .loaded size matching =>
      "Loaded a program of " ++ toString size ++ " instructions with "
        ++ matching.name ++ " bracket matching"
  | .matchingDiffers actual configured =>
      "Program was loaded with " ++ actual.name
        ++ " bracket matching but the engine is configured for "
        ++ configured.name ++ "; the program's matching applies"
  | .started size pending =>
      "Exploring a program of " ++ toString size ++ " instructions with "
        ++ toString pending ++ " pending states"
  | .running path location =>
      "Running state " ++ name path ++ " from instruction "
        ++ toString location
  | .stepFaulted path fault =>
      "State " ++ name path ++ " faulted: " ++ fault.render Fault.message
  | .split path location zero nonZero =>
      "State " ++ name path ++ " forked at " ++ toString location ++ " into "
        ++ name zero ++ " (zero) and " ++ name nonZero ++ " (non-zero)"
  | .completed path constraint =>
      "State " ++ name path ++ " completed under " ++ constraint.render
  | .faulted path fault =>
      "State " ++ name path ++ " faulted with " ++ fault.render Fault.message
  | .forkedOff path parent clause =>
      "State " ++ name path ++ " forked off " ++ (parent.map name).getD ""
        ++ " with " ++ clause.render
  | .pruned path constraint =>
      "Pruning state " ++ name path ++ " as " ++ constraint.render
        ++ " is unsatisfiable"
  | .truncated pending reason =>
      "Exploration truncated with " ++ toString pending
        ++ " states left unexplored: " ++ reason.message
  | .finished completedCount erroredCount totalSteps =>
      "Exploration finished with " ++ toString completedCount
        ++ " completed and " ++ toString erroredCount
        ++ " errored states after " ++ toString totalSteps ++ " steps"
  | .unfinished reason =>
      "Exploration of the program did not finish: " ++ reason.message
  | .partialResult => "Returning a partial exploration"

/-- The severity of an event and its text. -/
def render (name : Identifier -> String) (event : Event) : String :=
  event.severity.name ++ " " ++ event.message name

end Event

/-- The events of an exploration in order. -/
abbrev Journal := Array Event

namespace Journal

/-- The events that matter at least so much. -/
def atLeast (journal : Journal) (severity : Severity) : List Event :=
  journal.toList.filter fun event =>
    severity.rank ≤ event.severity.rank

end Journal
end SymbolicTape
