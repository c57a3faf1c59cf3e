import SymbolicTape.Error
import SymbolicTape.Opcode

/-!
# Matching of loop brackets

The partner of a loop instruction is found in two ways.  A bracket map pairs
all loop instructions of a balanced program at once and refuses any other
program.  A scan looks for one partner at a time and works on every program.
-/

namespace SymbolicTape

/-- The partner of every loop instruction of a balanced program. -/
structure BracketMap where
  /-- For each instruction the index of its partner, if it has one. -/
  partners : Array (Option Nat)
  deriving DecidableEq

namespace BracketMap

/-- Record that the instructions at two indices are partners. -/
def pair
    (partners : Array (Option Nat))
    (enter exit : Nat) : Array (Option Nat) :=
  (partners.setIfInBounds enter (some exit)).setIfInBounds exit (some enter)

/-- Pair the instructions from `index` on, given the loop enters that are still
open before it, innermost first.  A loop exit closes the innermost open enter
and is refused if there is none; at the end the outermost open enter is
refused. -/
def buildFrom :
    List Opcode -> (index : Nat) -> (opened : List Nat) ->
      Array (Option Nat) -> Except (Located LoadError) BracketMap
  | [], _, opened, partners =>
      match opened.getLast? with
      | none => .ok ⟨partners⟩
      | some enter => .error ⟨enter, .unmatchedLoopEnter⟩
  | .loopEnter :: rest, index, opened, partners =>
      buildFrom rest (index + 1) (index :: opened) partners
  | .loopExit :: _, index, [], _ => .error ⟨index, .unmatchedLoopExit⟩
  | .loopExit :: rest, index, enter :: opened, partners =>
      buildFrom rest (index + 1) opened (pair partners enter index)
  | _ :: rest, index, opened, partners =>
      buildFrom rest (index + 1) opened partners

/-- The bracket map of a sequence of instructions.  The first loop exit without
an enter is reported; if there is none, the first loop enter without an exit
is. -/
def build
    (instructions : Array Opcode) :
    Except (Located LoadError) BracketMap :=
  buildFrom instructions.toList 0 [] (Array.replicate instructions.size none)

/-- The index of the partner of the instruction at `index`. -/
def partner? (map : BracketMap) (index : Nat) : Option Nat :=
  map.partners.getD index none

/-- The number of loops. -/
def loopCount (map : BracketMap) : Nat :=
  map.partners.toList.countP Option.isSome / 2

end BracketMap

namespace Brackets

/-- Look for the first index at which as many loops were closed as opened,
starting with `depth` loops open.  A loop exit with no loop open ends the
search. -/
def scanForward : List Opcode -> (index depth : Nat) -> Option Nat
  | [], _, _ => none
  | .loopEnter :: rest, index, depth =>
      scanForward rest (index + 1) (depth + 1)
  | .loopExit :: _, _, 0 => none
  | .loopExit :: _, index, 1 => some index
  | .loopExit :: rest, index, depth + 2 =>
      scanForward rest (index + 1) (depth + 1)
  | _ :: rest, index, depth => scanForward rest (index + 1) depth

/-- Look backwards for the first index at which as many loops were opened as
closed, starting with `depth` loops closed.  The list holds the instructions
before `index`, last one first. -/
def scanBackward : List Opcode -> (index depth : Nat) -> Option Nat
  | [], _, _ => none
  | .loopExit :: rest, index, depth =>
      scanBackward rest (index - 1) (depth + 1)
  | .loopEnter :: _, _, 0 => none
  | .loopEnter :: _, index, 1 => some (index - 1)
  | .loopEnter :: rest, index, depth + 2 =>
      scanBackward rest (index - 1) (depth + 1)
  | _ :: rest, index, depth => scanBackward rest (index - 1) depth

/-- The exit that closes the loop entered at `enter`. -/
def scanForExit
    (instructions : Array Opcode)
    (enter : Nat) : Option Nat :=
  scanForward (instructions.toList.drop enter) enter 0

/-- The enter that opened the loop closed at `exit`. -/
def scanForEnter
    (instructions : Array Opcode)
    (exit : Nat) : Option Nat :=
  let before := instructions.toList.take (exit + 1)
  scanBackward before.reverse before.length 0

end Brackets
end SymbolicTape
