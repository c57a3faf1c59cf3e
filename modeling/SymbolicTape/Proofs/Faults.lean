import SymbolicTape.Proofs.DepthFirst

/-!
# Faults change nothing

An instruction that faults is counted, and it does nothing else: the state is
still in front of it, with the tape, the constraint and the input as they were.
No instruction looks at the number of steps.  The state is therefore not changed
in any way that its next instruction could notice, and it faults again, with the
same fault, as often as it is run.
-/

namespace SymbolicTape

/-! ## Instructions do not look at the number of steps -/

/-- The state with another number of steps. -/
def State.withSteps (steps : Nat) (state : State) : State :=
  { state with steps := steps }

/-- The effect with another number of steps in every state. -/
def Effect.withSteps (steps : Nat) : Effect -> Effect
  | .next after => .next (after.withSteps steps)
  | .split zero nonZero =>
      .split (zero.withSteps steps) (nonZero.withSteps steps)
  | .fault after reason => .fault (after.withSteps steps) reason

namespace State

section WithSteps

variable (steps : Nat) (state : State)

theorem changeCell_withSteps (change : Value -> Value) :
    (state.withSteps steps).changeCell change =
      (state.changeCell change).withSteps steps := by
  unfold changeCell
  dsimp only [withSteps]
  cases state.tape.index? state.pointer with
  | error fault => rfl
  | ok index => rfl

theorem testAtEnter_withSteps (program : Program) :
    (state.withSteps steps).testAtEnter program =
      (state.testAtEnter program).withSteps steps := by
  unfold testAtEnter
  dsimp only [withSteps]
  cases state.tape.get state.pointer with
  | error fault => rfl
  | ok value =>
      dsimp only
      cases value.zeroTest with
      | nonZero => rfl
      | zero =>
          cases program.matchingExit? state.instructionPointer <;> rfl
      | undetermined whenZero =>
          cases program.matchingExit? state.instructionPointer <;> rfl

theorem testAtExit_withSteps :
    (state.withSteps steps).testAtExit =
      state.testAtExit.withSteps steps := by
  obtain ⟨_, pointer, loopStack, tape, _, _, _, _⟩ := state
  cases loopStack with
  | nil => rfl
  | cons enter outer =>
      unfold testAtExit
      dsimp only [withSteps]
      cases tape.get pointer with
      | error fault => rfl
      | ok value =>
          dsimp only
          cases value.zeroTest <;> rfl

theorem readInput_withSteps :
    (state.withSteps steps).readInput = state.readInput.withSteps steps := by
  unfold readInput
  dsimp only [withSteps]
  cases state.tape.index? state.pointer with
  | error fault => rfl
  | ok index => rfl

theorem writeOutput_withSteps (policy : OutputPolicy) :
    (state.withSteps steps).writeOutput policy =
      (state.writeOutput policy).withSteps steps := by
  unfold writeOutput
  dsimp only [withSteps]
  cases state.tape.get state.pointer with
  | error fault => rfl
  | ok value =>
      dsimp only
      split <;> rfl

/-- An instruction has the same effect whatever the number of steps. -/
theorem execute_withSteps
    (program : Program)
    (policy : OutputPolicy)
    (opcode : Opcode) :
    (state.withSteps steps).execute program policy opcode =
      (state.execute program policy opcode).withSteps steps := by
  cases opcode with
  | moveRight | moveLeft | comment => rfl
  | increment => exact changeCell_withSteps steps state _
  | decrement => exact changeCell_withSteps steps state _
  | loopEnter => exact testAtEnter_withSteps steps state program
  | loopExit => exact testAtExit_withSteps steps state
  | read => exact readInput_withSteps steps state
  | write => exact writeOutput_withSteps steps state policy

/-- The next instruction has the same effect, counted from another number of
steps. -/
theorem effect?_withSteps (program : Program) (policy : OutputPolicy) :
    (state.withSteps steps).effect? program policy =
      (state.effect? program policy).map (Effect.withSteps (steps + 1)) := by
  have counted : (state.withSteps steps).countStep =
      state.countStep.withSteps (steps + 1) := rfl
  have location_eq : (state.withSteps steps).instructionPointer =
      state.instructionPointer := rfl
  unfold effect?
  rw [location_eq, Option.map_map, counted]
  congr 1
  funext opcode
  exact execute_withSteps (steps + 1) state.countStep program policy opcode

end WithSteps

/-! ## Runs up to a fault -/

section Faults

variable {program : Program} {policy : OutputPolicy} {state after : State}
variable {fault : Fault}

/-- A run that goes on leaves the rest of the budget to the last state. -/
theorem Runs.step_add
    {count : Nat}
    {last : State}
    (runs : Runs program policy count state last)
    (budget : Nat) :
    state.step program policy (count + budget) =
      ⟨count + (last.step program policy budget).executed,
        (last.step program policy budget).outcome⟩ := by
  induction runs with
  | refl state => simp
  | @head state next last count effect_eq rest inductionHypothesis =>
      obtain ⟨opcode, fetched, executed_eq⟩ :=
        Option.map_eq_some_iff.mp effect_eq
      rw [Nat.add_right_comm, step, stepFrom, fetched]
      dsimp only
      rw [executed_eq]
      dsimp only
      rw [stepFrom_eq_add, inductionHypothesis]
      simp only [Slice.mk.injEq, and_true]
      omega

/-- A state whose next instruction faults executes it and nothing else. -/
theorem step_of_fault
    (effect_eq : state.effect? program policy = some (.fault after fault))
    (budget : Nat) :
    state.step program policy (budget + 1) =
      ⟨1, .faulted after ⟨state.instructionPointer, fault⟩⟩ := by
  obtain ⟨opcode, fetched, executed_eq⟩ := Option.map_eq_some_iff.mp effect_eq
  rw [step, stepFrom, fetched]
  dsimp only
  rw [executed_eq]

/-- A fault only counts its instruction. -/
theorem eq_countStep_of_fault
    (effect_eq : state.effect? program policy = some (.fault after fault)) :
    after = state.countStep := by
  cases extends_of_effect? effect_eq with
  | fault fault => rfl

/-- A state that faulted faults again. -/
theorem effect?_countStep_of_fault
    (effect_eq : state.effect? program policy = some (.fault after fault)) :
    after.effect? program policy = some (.fault after.countStep fault) := by
  obtain rfl := eq_countStep_of_fault effect_eq
  have again := effect?_withSteps (state.steps + 1) state program policy
  rw [effect_eq] at again
  exact again

/-- A run that faults went on until the instruction before the one that
faults. -/
theorem exists_before_of_faulted
    {budget : Nat}
    {located : Located Fault}
    (faulted :
      (state.step program policy budget).outcome = .faulted after located) :
    ∃ count before,
      (state.step program policy budget).executed = count + 1 ∧
        state.step program policy count = ⟨count, .advanced before⟩ ∧
        before.effect? program policy =
          some (.fault after located.payload) ∧
        located.location = before.instructionPointer := by
  have reaches := reaches_step program policy budget state
  generalize state.step program policy budget = slice at faulted reaches
  cases reaches with
  | advanced | done | forked => cases faulted
  | @faulted count before after reason runs effect_eq =>
      cases faulted
      refine ⟨count, before, rfl, ?_, effect_eq, rfl⟩
      have notDone : before.isDone program = false := by
        cases isDone : before.isDone program with
        | false => rfl
        | true =>
            have noEffect := (@effect?_eq_none_iff program policy _).mpr isDone
            cases noEffect.symm.trans effect_eq
      rw [← Nat.add_zero count, runs.step_add]
      simp [step, stepFrom, notDone]

end Faults
end State

namespace Path

/-- Only a state that faults makes its path fault. -/
theorem exists_of_follow_eq_faulted
    {path after : Path}
    {names : Names}
    {outcome : Outcome State}
    {fault : Located Fault}
    (faulted : path.follow names outcome = .faulted after fault) :
    ∃ state, outcome = .faulted state fault ∧
      after = { path with state := state } := by
  cases outcome with
  | advanced | done | forked => cases faulted
  | faulted state reason =>
      cases faulted
      exact ⟨state, rfl, rfl⟩

/-- The path with one more step counted. -/
def countStep (path : Path) : Path :=
  { path with state := path.state.countStep }

/-- Faults are atomic and repeatable.  Whatever a path looks like before, if a
slice of it faults, then the path is as it was in front of the faulting
instruction, where a slice with a smaller budget leaves it, except that this
instruction is counted; in particular it has no new clause and no new input.
The fault is located at the instruction in front of which the path is.  Running
the path again, for any budget, executes one instruction, which has the same
fault and leaves a path that behaves alike. -/
theorem faults_are_atomic_and_repeatable
    {program : Program}
    {policy : OutputPolicy}
    {names : Names}
    {budget : Nat}
    {path after : Path}
    {fault : Located Fault}
    (faulted : (path.step program policy names budget).outcome =
      .faulted after fault) :
    (∃ count before,
      (path.step program policy names budget).executed = count + 1 ∧
        path.step program policy names count = ⟨count, .advanced before⟩ ∧
        after = before.countStep ∧
        after.state.constraint = before.state.constraint ∧
        after.state.inputCounter = before.state.inputCounter) ∧
      fault.location = after.state.instructionPointer ∧
      ∀ laterNames again, 1 ≤ again ->
        after.step program policy laterNames again =
            ⟨1, .faulted after.countStep fault⟩ ∧
          after.countStep.state.agreesWith after.state = true := by
  obtain ⟨state, state_eq, rfl⟩ := exists_of_follow_eq_faulted faulted
  obtain ⟨count, before, executed_eq, advanced_eq, effect_eq, location_eq⟩ :=
    State.exists_before_of_faulted state_eq
  have repeats := State.effect?_countStep_of_fault effect_eq
  obtain rfl := State.eq_countStep_of_fault effect_eq
  refine ⟨⟨count, { path with state := before }, executed_eq, ?_, rfl, rfl,
    rfl⟩, location_eq, ?_⟩
  · unfold step
    rw [advanced_eq]
    rfl
  · intro laterNames again positive
    obtain ⟨fewer, rfl⟩ := Nat.exists_eq_add_one.mpr positive
    constructor
    · unfold step
      rw [State.step_of_fault repeats]
      exact congrArg (fun located => Slice.mk 1 (.faulted _ located))
        (congrArg (Located.mk · fault.payload) location_eq.symm)
    · exact decide_eq_true rfl

/-- A program with a loop that is not closed. -/
def loopWithoutExit : Program := ⟨#[.moveRight, .loopEnter, .read], none⟩

/-- A path at the start of the program, on a tape of which the second cell was
given an unknown byte. -/
def editedPath : Path :=
  { identifier := (Names.counting 0).next
    state :=
      { tape := (Tape.blank 2).store ⟨1, Nat.one_lt_two⟩ (.input "edited") } }

/-- The loop tests the unknown byte, and its missing exit faults before the path
is split.  A slice of three instructions on the path that is left executes one of
them and faults in the same way. -/
theorem faults_are_atomic_and_repeatable_loopWithoutExit :
    ∃ after : Path,
      editedPath.step loopWithoutExit .recordSymbolic (.counting 1) 5 =
          ⟨2, .faulted after ⟨1, .noMatchingLoopExit⟩⟩ ∧
        after.state.constraint = .trivial ∧
        after.state.instructionPointer = 1 ∧
        after.step loopWithoutExit .recordSymbolic (.counting 1) 3 =
          ⟨1, .faulted after.countStep ⟨1, .noMatchingLoopExit⟩⟩ := by
  obtain ⟨after, step_eq, constraint_eq⟩ :
      ∃ after : Path,
        editedPath.step loopWithoutExit .recordSymbolic (.counting 1) 5 =
            ⟨2, .faulted after ⟨1, .noMatchingLoopExit⟩⟩ ∧
          after.state.constraint = .trivial :=
    ⟨_, rfl, rfl⟩
  obtain ⟨-, location_eq, repeats⟩ :=
    faults_are_atomic_and_repeatable (congrArg Slice.outcome step_eq)
  exact ⟨after, step_eq, constraint_eq, location_eq.symm,
    (repeats (.counting 1) 3 (by decide)).1⟩

end Path
end SymbolicTape
