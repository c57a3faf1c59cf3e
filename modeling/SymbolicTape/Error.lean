import SymbolicTape.Text.Hexadecimal

/-!
# Errors and early stops

A program text can be refused when it is loaded, a path can fault while it
runs, and an exploration can stop before it has followed every path.  Each of
the three has its own causes.  Load errors and faults are located at an
instruction; early stops are not the fault of any one path.
-/

namespace SymbolicTape

/-- Something that belongs to one instruction of the program. -/
structure Located (α : Type) where
  /-- The index of the instruction. -/
  location : Nat
  /-- What happened there. -/
  payload : α
  deriving DecidableEq

namespace Located

/-- Convert what is located, keeping the location. -/
def map (convert : α -> β) (located : Located α) : Located β :=
  ⟨located.location, convert located.payload⟩

@[simp] theorem location_map
    (convert : α -> β)
    (located : Located α) :
    (located.map convert).location = located.location := rfl

@[simp] theorem payload_map
    (convert : α -> β)
    (located : Located α) :
    (located.map convert).payload = convert located.payload := rfl

/-- The location in eight hexadecimal digits, then the message. -/
def render (message : α -> String) (located : Located α) : String :=
  "[0x" ++ Text.Hexadecimal.render 8 located.location ++ "]: "
    ++ message located.payload

end Located

/-- The largest index an instruction can have; a program is not longer. -/
def maximumProgramSize : Nat := 4294967295

/-- Why a program text is refused. -/
inductive LoadError
  | unmatchedLoopExit
  | unmatchedLoopEnter
  | programTooLarge
  deriving DecidableEq

namespace LoadError

/-- The wording of a load error. -/
def message : LoadError -> String
  | .unmatchedLoopExit => "Loop exit has no matching loop enter"
  | .unmatchedLoopEnter => "Loop enter has no matching loop exit"
  | .programTooLarge =>
      "The length of the program exceeded " ++ toString maximumProgramSize

end LoadError

/-- Why a single path, or a run on concrete input, cannot go on. -/
inductive Fault
  /-- The current cell lies outside a tape of `capacity` cells. -/
  | memoryAccess (pointer : Int64) (capacity : Nat)
  /-- A loop exit was reached with no loop entered. -/
  | unbalancedLoop
  /-- A loop has to be skipped, but it has no exit. -/
  | noMatchingLoopExit
  /-- A value that still depends on the input was written. -/
  | unsupportedConcretization (pointer : Int64)
  deriving DecidableEq

namespace Fault

/-- The wording of a fault. -/
def message : Fault -> String
  | .memoryAccess pointer capacity =>
      "Tape access at " ++ toString pointer.toInt
        ++ " is outside the tape of " ++ toString capacity ++ " cells"
  | .unbalancedLoop =>
      "Loop exit encountered with no enclosing loop on the stack"
  | .noMatchingLoopExit =>
      "No matching loop exit could be found to skip the loop body"
  | .unsupportedConcretization pointer =>
      "Cannot write the unresolved symbolic value in cell "
        ++ toString pointer.toInt ++ " to the output"

end Fault

/-- Why an exploration stopped before its worklist was empty. -/
inductive Truncation
  /-- More than `limit` paths were waiting. -/
  | liveStateLimit (limit : Nat)
  /-- One call executed `limit` instructions. -/
  | stepLimit (limit : Nat)
  /-- `limit` paths had completed or faulted. -/
  | terminalStateLimit (limit : Nat)
  /-- The watchdog asked for a stop. -/
  | stoppedByWatchdog
  deriving DecidableEq

namespace Truncation

/-- The limit that was reached, if it was a limit that stopped exploration. -/
def limit? : Truncation -> Option Nat
  | .liveStateLimit limit => some limit
  | .stepLimit limit => some limit
  | .terminalStateLimit limit => some limit
  | .stoppedByWatchdog => none

/-- The wording of an early stop. -/
def message : Truncation -> String
  | .liveStateLimit limit =>
      "Exploration exceeded the limit of " ++ toString limit ++ " live states"
  | .stepLimit limit =>
      "Exploration exceeded the limit of " ++ toString limit
        ++ " executed instructions"
  | .terminalStateLimit limit =>
      "Exploration reached the limit of " ++ toString limit
        ++ " finished paths"
  | .stoppedByWatchdog => "Exploration was stopped by the watchdog"

end Truncation

/-- Any error that the library reports about a program. -/
inductive Error
  | load (error : LoadError)
  | execution (fault : Fault)
  deriving DecidableEq

namespace Error

/-- The wording of an error is the wording of its cause. -/
def message : Error -> String
  | .load error => error.message
  | .execution fault => fault.message

end Error
end SymbolicTape
