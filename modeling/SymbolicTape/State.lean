import SymbolicTape.Constraint
import SymbolicTape.Program
import SymbolicTape.Tape

/-!
# Symbolic states

A symbolic state is a point on one path through a program whose input is
unknown.  Every read stores a fresh name.  A loop test that depends on the
input splits the state into the side on which the tested cell is zero and the
side on which it is not, and each side adds its assumption to the constraint.

`State.execute` is the effect of one instruction.  `State.step` runs a state
for a budget of instructions, until the program ends, the state splits or an
instruction faults.
-/

namespace SymbolicTape

/-- What happens when a value that depends on the input is written. -/
inductive OutputPolicy
  /-- The path faults. -/
  | rejectSymbolic
  /-- The value is kept as it is. -/
  | recordSymbolic
  deriving DecidableEq, Inhabited

/-- The name of the input byte that a read stores, counted from zero. -/
def inputName (index : Nat) : String := "input_" ++ toString index

/-- A point on a path through a program. -/
structure State where
  /-- The index of the next instruction. -/
  instructionPointer : Nat := 0
  /-- The position of the head, which may leave the tape. -/
  pointer : Int64 := 0
  /-- The enters of the loops being executed, innermost first. -/
  loopStack : List Nat := []
  /-- The tape. -/
  tape : Tape
  /-- The condition on the input under which the path is taken. -/
  constraint : Constraint := {}
  /-- The number of reads so far. -/
  inputCounter : Nat := 0
  /-- The values written so far. -/
  output : Array Value := #[]
  /-- The number of instructions executed since the start of the program. -/
  steps : Nat := 0
  deriving DecidableEq

/-- What one instruction does to a state. -/
inductive Effect
  /-- The state goes on. -/
  | next (state : State)
  /-- A loop test depends on the input, and both sides go on. -/
  | split (zero nonZero : State)
  /-- The instruction cannot be executed in this state. -/
  | fault (state : State) (fault : Fault)

/-- Where a run ends. -/
inductive Outcome (σ : Type)
  /-- The budget was used up. -/
  | advanced (state : σ)
  /-- The program ended. -/
  | done (state : σ)
  /-- The loop test at a location depends on the input. -/
  | forked (location : Nat) (zero nonZero : σ)
  /-- An instruction faulted, and the state is still in front of it. -/
  | faulted (state : σ) (fault : Located Fault)

/-- A run within a budget. -/
structure Slice (σ : Type) where
  /-- The number of instructions that were executed. -/
  executed : Nat
  /-- Where the run ended. -/
  outcome : Outcome σ

namespace State

/-- The state at the start of a program, on a tape of zeros. -/
def initial (capacity : Nat) : State := { tape := Tape.blank capacity }

/-- Whether the program has ended. -/
def isDone (program : Program) (state : State) : Bool :=
  program.size ≤ state.instructionPointer

/-- Go on with the next instruction. -/
def advance (state : State) : State :=
  { state with instructionPointer := state.instructionPointer + 1 }

/-- Go on inside the loop whose enter is the current instruction. -/
def enterLoop (state : State) : State :=
  { state with
    loopStack := state.instructionPointer :: state.loopStack
    instructionPointer := state.instructionPointer + 1 }

/-- Go on after the exit of a loop that is not entered. -/
def skipLoop (exit : Nat) (state : State) : State :=
  { state with instructionPointer := exit + 1 }

/-- Go on after the innermost loop, whose exit is the current instruction. -/
def exitLoop (state : State) : State :=
  { state with
    loopStack := state.loopStack.tail
    instructionPointer := state.instructionPointer + 1 }

/-- Go on at the start of the body of a loop. -/
def repeatLoop (enter : Nat) (state : State) : State :=
  { state with instructionPointer := enter + 1 }

/-- Add an assumption to the constraint. -/
def assume (clause : Predicate) (state : State) : State :=
  { state with constraint := state.constraint.and clause }

/-- Change the current cell. -/
def changeCell (change : Value -> Value) (state : State) : Effect :=
  match state.tape.index? state.pointer with
  | .error fault => .fault state fault
  | .ok index =>
      let value := change (state.tape.cell index)
      .next { state with tape := state.tape.store index value }.advance

/-- Test the current cell at a loop enter.  A loop whose test depends on the
input needs its exit before the state can split. -/
def testAtEnter (program : Program) (state : State) : Effect :=
  match state.tape.get state.pointer with
  | .error fault => .fault state fault
  | .ok value =>
      match value.zeroTest with
      | .nonZero => .next state.enterLoop
      | .zero =>
          match program.matchingExit? state.instructionPointer with
          | none => .fault state .noMatchingLoopExit
          | some exit => .next (state.skipLoop exit)
      | .undetermined whenZero =>
          match program.matchingExit? state.instructionPointer with
          | none => .fault state .noMatchingLoopExit
          | some exit =>
              .split
                ((state.assume whenZero).skipLoop exit)
                (state.assume whenZero.negate).enterLoop

/-- Test the current cell at a loop exit.  The loop is looked for before the
tape is. -/
def testAtExit (state : State) : Effect :=
  match state.loopStack with
  | [] => .fault state .unbalancedLoop
  | enter :: _ =>
      match state.tape.get state.pointer with
      | .error fault => .fault state fault
      | .ok value =>
          match value.zeroTest with
          | .zero => .next state.exitLoop
          | .nonZero => .next (state.repeatLoop enter)
          | .undetermined whenZero =>
              .split
                (state.assume whenZero).exitLoop
                ((state.assume whenZero.negate).repeatLoop enter)

/-- Store a fresh name in the current cell. -/
def readInput (state : State) : Effect :=
  match state.tape.index? state.pointer with
  | .error fault => .fault state fault
  | .ok index =>
      let value := Value.input (inputName state.inputCounter)
      .next
        { state with
          tape := state.tape.store index value
          inputCounter := state.inputCounter + 1 }.advance

/-- Write the current cell. -/
def writeOutput (policy : OutputPolicy) (state : State) : Effect :=
  match state.tape.get state.pointer with
  | .error fault => .fault state fault
  | .ok value =>
      if value.isSymbolic ∧ policy = .rejectSymbolic then
        .fault state (.unsupportedConcretization state.pointer)
      else
        .next { state with output := state.output.push value }.advance

/-- Execute one instruction, the one at the instruction pointer. -/
def execute
    (program : Program)
    (policy : OutputPolicy)
    (opcode : Opcode)
    (state : State) : Effect :=
  match opcode with
  | .moveRight => .next { state with pointer := state.pointer + 1 }.advance
  | .moveLeft => .next { state with pointer := state.pointer - 1 }.advance
  | .increment => state.changeCell (Value.add 1)
  | .decrement => state.changeCell (Value.sub 1)
  | .loopEnter => state.testAtEnter program
  | .loopExit => state.testAtExit
  | .read => state.readInput
  | .write => state.writeOutput policy
  | .comment _ => .next state.advance

/-- Count one more instruction. -/
def countStep (state : State) : State :=
  { state with steps := state.steps + 1 }

/-- Run a state for a budget of instructions, `executed` being the number of
instructions executed before. -/
def stepFrom
    (program : Program)
    (policy : OutputPolicy) :
    (budget executed : Nat) -> State -> Slice State
  | 0, executed, state =>
      ⟨executed, if state.isDone program then .done state else .advanced state⟩
  | budget + 1, executed, state =>
      match program.instruction? state.instructionPointer with
      | none => ⟨executed, .done state⟩
      | some opcode =>
          let location := state.instructionPointer
          match state.countStep.execute program policy opcode with
          | .fault state fault =>
              ⟨executed + 1, .faulted state ⟨location, fault⟩⟩
          | .split zero nonZero =>
              ⟨executed + 1, .forked location zero nonZero⟩
          | .next next => stepFrom program policy budget (executed + 1) next

/-- Run a state until the program ends, the state splits or an instruction
faults, but for no more than a budget of instructions. -/
def step
    (program : Program)
    (policy : OutputPolicy)
    (budget : Nat)
    (state : State) : Slice State :=
  stepFrom program policy budget 0 state

/-- Instructions that were executed before stay counted. -/
theorem le_executed_stepFrom
    (program : Program)
    (policy : OutputPolicy)
    (budget executed : Nat)
    (state : State) :
    executed ≤ (stepFrom program policy budget executed state).executed := by
  induction budget generalizing executed state with
  | zero => exact Nat.le_refl executed
  | succ budget inductionHypothesis =>
      unfold stepFrom
      split
      · exact Nat.le_refl executed
      · split
        · exact Nat.le_succ executed
        · exact Nat.le_succ executed
        · exact Nat.le_trans (Nat.le_succ executed)
            (inductionHypothesis (executed + 1) _)

/-- A run that has a budget and executes nothing was at the end already. -/
theorem outcome_step_of_executed_eq_zero
    {program : Program}
    {policy : OutputPolicy}
    {budget : Nat}
    {state : State}
    (budgetPositive : 0 < budget)
    (executedNothing : (state.step program policy budget).executed = 0) :
    (state.step program policy budget).outcome = .done state := by
  obtain ⟨smaller, rfl⟩ := Nat.exists_eq_succ_of_ne_zero
    (Nat.ne_of_gt budgetPositive)
  unfold step stepFrom at executedNothing ⊢
  split at executedNothing
  · rfl
  · split at executedNothing
    · exact absurd executedNothing (Nat.succ_ne_zero 0)
    · exact absurd executedNothing (Nat.succ_ne_zero 0)
    · exact absurd executedNothing (Nat.ne_of_gt
        (le_executed_stepFrom program policy smaller (0 + 1) _))

/-- Whether two states behave alike from here on: they are the same except for
the number of instructions that led to them. -/
def agreesWith (state other : State) : Bool :=
  decide ({ state with steps := other.steps } = other)

/-- The output as bytes, if all values written are known. -/
def outputBytes? (state : State) : Option (Array UInt8) :=
  state.output.mapM Value.concrete?

end State
end SymbolicTape
