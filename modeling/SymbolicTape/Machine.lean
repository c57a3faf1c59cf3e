import SymbolicTape.Machine.ByteTape
import SymbolicTape.Program

/-!
# The concrete machine

The concrete machine runs a program on known input.  What the machine does on
one instruction is a total function, and a run is its iteration under a bound
on the number of instructions; a run without an answer has met the bound.

The input is a stream that says for every read which byte it stores.  A finite
string of bytes becomes such a stream by storing zero for a newline and for
every read past its end.
-/

namespace SymbolicTape

/-- For each read of a run, counted from zero, the byte that it stores. -/
abbrev InputStream := Nat -> UInt8

namespace InputStream

/-- The byte that ends a line of input. -/
def newline : UInt8 := 10

/-- The byte stored by a read at a newline or after the end of the input. -/
def endOfInput : UInt8 := 0

/-- The stream of a finite input. -/
def ofBytes (bytes : Array UInt8) : InputStream := fun index =>
  match bytes[index]? with
  | none => endOfInput
  | some byte => if byte = newline then endOfInput else byte

end InputStream

/-- The state of a concrete run. -/
structure Machine where
  /-- The index of the next instruction. -/
  instructionPointer : Nat := 0
  /-- The position of the head, which may leave the tape. -/
  pointer : Int64 := 0
  /-- The enters of the loops being executed, innermost first. -/
  loopStack : List Nat := []
  /-- The tape. -/
  tape : ByteTape
  /-- The number of reads so far. -/
  reads : Nat := 0
  /-- The bytes written so far. -/
  output : Array UInt8 := #[]
  deriving DecidableEq

namespace Machine

/-- The machine before a run. -/
def initial (bound : TapeBound) : Machine :=
  { tape := ByteTape.blank bound }

/-- Execute one instruction, the one at the instruction pointer. -/
def execute
    (program : Program)
    (input : InputStream)
    (opcode : Opcode)
    (machine : Machine) : Except Fault Machine :=
  let ⟨instructionPointer, pointer, loopStack, tape, reads, output⟩ := machine
  let next := instructionPointer + 1
  match opcode with
  | .moveRight => .ok ⟨next, pointer + 1, loopStack, tape, reads, output⟩
  | .moveLeft => .ok ⟨next, pointer - 1, loopStack, tape, reads, output⟩
  | .increment => do
      let (byte, tape) <- tape.get pointer
      let tape <- tape.set pointer (byte + 1)
      return ⟨next, pointer, loopStack, tape, reads, output⟩
  | .decrement => do
      let (byte, tape) <- tape.get pointer
      let tape <- tape.set pointer (byte - 1)
      return ⟨next, pointer, loopStack, tape, reads, output⟩
  | .loopEnter => do
      let (byte, tape) <- tape.get pointer
      if byte = 0 then
        match program.matchingExit? instructionPointer with
        | none => throw .noMatchingLoopExit
        | some exit =>
            return ⟨exit + 1, pointer, loopStack, tape, reads, output⟩
      else
        return ⟨next, pointer, instructionPointer :: loopStack, tape, reads,
          output⟩
  | .loopExit =>
      match loopStack with
      | [] => throw .unbalancedLoop
      | enter :: outer => do
          let (byte, tape) <- tape.get pointer
          if byte = 0 then
            return ⟨next, pointer, outer, tape, reads, output⟩
          else
            return ⟨enter + 1, pointer, enter :: outer, tape, reads, output⟩
  | .read => do
      let tape <- tape.set pointer (input reads)
      return ⟨next, pointer, loopStack, tape, reads + 1, output⟩
  | .write => do
      let (byte, tape) <- tape.get pointer
      return ⟨next, pointer, loopStack, tape, reads, output.push byte⟩
  | .comment _ => .ok ⟨next, pointer, loopStack, tape, reads, output⟩

/-- Run for at most `fuel` instructions.  The answer is what was written, or
the fault with the instruction at which it arose, or nothing if the machine
was still running. -/
def run
    (program : Program)
    (input : InputStream) :
    (fuel : Nat) -> Machine ->
      Option (Except (Located Fault) (Array UInt8))
  | fuel, machine =>
      match program.instruction? machine.instructionPointer, fuel with
      | none, _ => some (.ok machine.output)
      | some _, 0 => none
      | some opcode, fuel + 1 =>
          let location := machine.instructionPointer
          match machine.execute program input opcode with
          | .error fault => some (.error ⟨location, fault⟩)
          | .ok machine => run program input fuel machine

end Machine

/-- Run a program on a finite input for at most `fuel` instructions. -/
def interpret
    (program : Program)
    (input : Array UInt8)
    (bound : TapeBound)
    (fuel : Nat) : Option (Except (Located Fault) (Array UInt8)) :=
  (Machine.initial bound).run program (InputStream.ofBytes input) fuel

end SymbolicTape
