import SymbolicTape.Program.Brackets

/-!
# Programs

A program is a sequence of instructions, one for each character of its text,
together with the way in which its loops are matched.  The index one past the
last instruction is the end of the program.
-/

namespace SymbolicTape

/-- How the loops of a program are matched. -/
inductive Matching
  /-- All loops are matched when the program is loaded, and an unbalanced
  program is refused. -/
  | precomputed
  /-- A loop is matched when it has to be skipped, and an unbalanced program
  runs until it needs a partner that is not there. -/
  | lazy
  deriving DecidableEq, Inhabited

namespace Matching

/-- The name of a way of matching. -/
def name : Matching -> String
  | .precomputed => "Precomputed"
  | .lazy => "Lazy"

end Matching

/-- A loaded program. -/
structure Program where
  /-- The instructions, one for each character of the text. -/
  instructions : Array Opcode
  /-- The bracket map, if loops were matched when the program was loaded. -/
  brackets : Option BracketMap
  deriving DecidableEq

namespace Program

/-- The instructions that a text stands for. -/
def decode (source : String) : Array Opcode :=
  (source.toList.map Opcode.ofChar).toArray

/-- Load a program text. -/
def load
    (source : String)
    (matching : Matching) :
    Except (Located LoadError) Program :=
  let instructions := decode source
  if maximumProgramSize < instructions.size then
    .error ⟨maximumProgramSize, .programTooLarge⟩
  else
    match matching with
    | .precomputed =>
        (BracketMap.build instructions).map fun brackets =>
          ⟨instructions, some brackets⟩
    | .lazy => .ok ⟨instructions, none⟩

/-- The number of instructions, which is also the index of the end. -/
def size (program : Program) : Nat := program.instructions.size

/-- Whether there are no instructions. -/
def isEmpty (program : Program) : Bool := program.instructions.isEmpty

/-- The instruction at an index; there is none from the end on. -/
def instruction? (program : Program) (index : Nat) : Option Opcode :=
  program.instructions[index]?

/-- How the loops of the program are matched. -/
def matching (program : Program) : Matching :=
  if program.brackets.isSome then .precomputed else .lazy

/-- The exit of the loop entered at an index, which must hold a loop enter. -/
def matchingExit? (program : Program) (enter : Nat) : Option Nat :=
  if program.instruction? enter = some .loopEnter then
    match program.brackets with
    | some map => map.partner? enter
    | none => Brackets.scanForExit program.instructions enter
  else
    none

/-- The enter of the loop closed at an index, which must hold a loop exit. -/
def matchingEnter? (program : Program) (exit : Nat) : Option Nat :=
  if program.instruction? exit = some .loopExit then
    match program.brackets with
    | some map => map.partner? exit
    | none => Brackets.scanForEnter program.instructions exit
  else
    none

/-- The text of the program. -/
def text (program : Program) : String :=
  String.ofList (program.instructions.toList.map Opcode.toChar)

end Program
end SymbolicTape
