/-!
# Instructions of the tape machine

Eight characters are instructions.  Every other character does nothing when it
is executed, but it is kept, so that the index of an instruction is the index
of its character in the program text.
-/

namespace SymbolicTape

/-- One instruction of the tape machine. -/
inductive Opcode
  /-- Move the head one cell to the right. -/
  | moveRight
  /-- Move the head one cell to the left. -/
  | moveLeft
  /-- Add one to the current cell, modulo 256. -/
  | increment
  /-- Subtract one from the current cell, modulo 256. -/
  | decrement
  /-- Skip past the matching exit if the current cell is zero. -/
  | loopEnter
  /-- Repeat the loop body if the current cell is not zero. -/
  | loopExit
  /-- Store the next input byte in the current cell. -/
  | read
  /-- Write the current cell to the output. -/
  | write
  /-- A character without effect. -/
  | comment (character : Char)
  deriving DecidableEq, Inhabited

namespace Opcode

/-- The instruction that a character of program text stands for. -/
def ofChar : Char -> Opcode
  | '>' => .moveRight
  | '<' => .moveLeft
  | '+' => .increment
  | '-' => .decrement
  | '[' => .loopEnter
  | ']' => .loopExit
  | ',' => .read
  | '.' => .write
  | other => .comment other

/-- The character that stands for an instruction in program text. -/
def toChar : Opcode -> Char
  | .moveRight => '>'
  | .moveLeft => '<'
  | .increment => '+'
  | .decrement => '-'
  | .loopEnter => '['
  | .loopExit => ']'
  | .read => ','
  | .write => '.'
  | .comment character => character

/-- Decoding a character loses nothing. -/
@[simp] theorem toChar_ofChar (character : Char) :
    (ofChar character).toChar = character := by
  unfold ofChar
  split <;> rfl

/-- The mnemonic of an instruction; all comments share one. -/
def mnemonic : Opcode -> String
  | .moveRight => "PTR_INC"
  | .moveLeft => "PTR_DEC"
  | .increment => "CELL_INC"
  | .decrement => "CELL_DEC"
  | .loopEnter => "LOOP_ENTER"
  | .loopExit => "LOOP_EXIT"
  | .read => "READ"
  | .write => "WRITE"
  | .comment _ => "NOP"

/-- The loop instructions are the ones whose effect on the instruction pointer
depends on the current cell. -/
def isBranch : Opcode -> Bool
  | .loopEnter | .loopExit => true
  | _ => false

end Opcode
end SymbolicTape
