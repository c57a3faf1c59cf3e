import SymbolicTape.State

/-!
# Runs of symbolic states

A slice is a number of instructions after which the state goes on, followed by
what ended it: the budget, the end of the program, a split or a fault.
`State.Reaches` says so, and all facts about slices are taken from it.

What an instruction can do to the constraint is said once, by `Effect.Extends`:
a state that goes on keeps it, the two sides of a split add a clause and its
negation, and a fault leaves the whole state alone.
-/

namespace SymbolicTape

/-- How the effect of an instruction on a state treats the constraint and the
number of steps. -/
inductive Effect.Extends (state : State) : Effect -> Prop
  | next
      {next : State}
      (constraint_eq : next.constraint = state.constraint)
      (steps_eq : next.steps = state.steps) :
      Extends state (.next next)
  | split
      {zero nonZero : State}
      (whenZero : Predicate)
      (zero_eq : zero.constraint = state.constraint.and whenZero)
      (nonZero_eq :
        nonZero.constraint = state.constraint.and whenZero.negate)
      (zeroSteps_eq : zero.steps = state.steps)
      (nonZeroSteps_eq : nonZero.steps = state.steps) :
      Extends state (.split zero nonZero)
  | fault (fault : Fault) : Extends state (.fault state fault)

/-- A property of the states that go on after an instruction. -/
def Effect.All (property : State -> Prop) : Effect -> Prop
  | .next after => property after
  | .split zero nonZero => property zero ∧ property nonZero
  | .fault _ _ => True

namespace State

theorem extends_changeCell (change : Value -> Value) (state : State) :
    (state.changeCell change).Extends state := by
  unfold changeCell
  split
  · exact .fault _
  · exact .next rfl rfl

theorem extends_testAtEnter (program : Program) (state : State) :
    (state.testAtEnter program).Extends state := by
  unfold testAtEnter
  split
  · exact .fault _
  · split
    · exact .next rfl rfl
    · split
      · exact .fault _
      · exact .next rfl rfl
    · split
      · exact .fault _
      · exact .split _ rfl rfl rfl rfl

theorem extends_testAtExit (state : State) :
    state.testAtExit.Extends state := by
  unfold testAtExit
  split
  · exact .fault _
  · split
    · exact .fault _
    · split
      · exact .next rfl rfl
      · exact .next rfl rfl
      · exact .split _ rfl rfl rfl rfl

theorem extends_readInput (state : State) :
    state.readInput.Extends state := by
  unfold readInput
  split
  · exact .fault _
  · exact .next rfl rfl

theorem extends_writeOutput (policy : OutputPolicy) (state : State) :
    (state.writeOutput policy).Extends state := by
  unfold writeOutput
  split
  · exact .fault _
  · split
    · exact .fault _
    · exact .next rfl rfl

/-- Every instruction extends the constraint in this way. -/
theorem extends_execute
    (program : Program)
    (policy : OutputPolicy)
    (opcode : Opcode)
    (state : State) :
    (state.execute program policy opcode).Extends state := by
  cases opcode with
  | moveRight => exact .next rfl rfl
  | moveLeft => exact .next rfl rfl
  | increment => exact extends_changeCell _ state
  | decrement => exact extends_changeCell _ state
  | loopEnter => exact extends_testAtEnter program state
  | loopExit => exact extends_testAtExit state
  | read => exact extends_readInput state
  | write => exact extends_writeOutput policy state
  | comment character => exact .next rfl rfl

/-- The effect of the next instruction of a state; there is none at the end of
the program. -/
def effect?
    (program : Program)
    (policy : OutputPolicy)
    (state : State) : Option Effect :=
  (program.instruction? state.instructionPointer).map fun opcode =>
    state.countStep.execute program policy opcode

/-- A state without a next instruction is at the end of the program. -/
theorem effect?_eq_none_iff
    {program : Program}
    {policy : OutputPolicy}
    {state : State} :
    state.effect? program policy = none ↔ state.isDone program = true := by
  unfold isDone Program.size
  rw [decide_eq_true_iff]
  simp [effect?, Program.instruction?]

theorem extends_of_effect?
    {program : Program}
    {policy : OutputPolicy}
    {state : State}
    {effect : Effect}
    (effect_eq : state.effect? program policy = some effect) :
    effect.Extends state.countStep := by
  obtain ⟨opcode, -, rfl⟩ := Option.map_eq_some_iff.mp effect_eq
  exact extends_execute program policy opcode state.countStep

/-- A number of instructions after each of which the state goes on. -/
inductive Runs
    (program : Program)
    (policy : OutputPolicy) : Nat -> State -> State -> Prop
  | refl (state : State) : Runs program policy 0 state state
  | head
      {state next last : State}
      {count : Nat}
      (effect_eq : state.effect? program policy = some (.next next))
      (rest : Runs program policy count next last) :
      Runs program policy (count + 1) state last

/-- A run after which the state goes on keeps the constraint. -/
theorem Runs.constraint_eq
    {program : Program}
    {policy : OutputPolicy}
    {count : Nat}
    {state last : State}
    (runs : Runs program policy count state last) :
    last.constraint = state.constraint := by
  induction runs with
  | refl state => rfl
  | head effect_eq rest inductionHypothesis =>
      cases extends_of_effect? effect_eq with
      | next constraint_eq steps_eq =>
          rw [inductionHypothesis, constraint_eq]
          rfl

/-- A run counts its instructions. -/
theorem Runs.steps_eq
    {program : Program}
    {policy : OutputPolicy}
    {count : Nat}
    {state last : State}
    (runs : Runs program policy count state last) :
    last.steps = state.steps + count := by
  induction runs with
  | refl state => rfl
  | head effect_eq rest inductionHypothesis =>
      cases extends_of_effect? effect_eq with
      | next constraint_eq steps_eq =>
          rw [inductionHypothesis, steps_eq]
          exact Nat.succ_add_eq_add_succ _ _

/-- What a run within a budget comes to. -/
inductive Reaches
    (program : Program)
    (policy : OutputPolicy)
    (state : State) : Slice State -> Prop
  | advanced
      {count : Nat}
      {last : State}
      (runs : Runs program policy count state last)
      (notDone : last.isDone program = false) :
      Reaches program policy state ⟨count, .advanced last⟩
  | done
      {count : Nat}
      {last : State}
      (runs : Runs program policy count state last)
      (isDone : last.isDone program = true) :
      Reaches program policy state ⟨count, .done last⟩
  | forked
      {count : Nat}
      {last zero nonZero : State}
      (runs : Runs program policy count state last)
      (effect_eq :
        last.effect? program policy = some (.split zero nonZero)) :
      Reaches program policy state
        ⟨count + 1, .forked last.instructionPointer zero nonZero⟩
  | faulted
      {count : Nat}
      {last after : State}
      {fault : Fault}
      (runs : Runs program policy count state last)
      (effect_eq : last.effect? program policy = some (.fault after fault)) :
      Reaches program policy state
        ⟨count + 1, .faulted after ⟨last.instructionPointer, fault⟩⟩

/-- An instruction after which the state goes on can be put in front. -/
theorem Reaches.head
    {program : Program}
    {policy : OutputPolicy}
    {state next : State}
    {slice : Slice State}
    (effect_eq : state.effect? program policy = some (.next next))
    (reaches : Reaches program policy next slice) :
    Reaches program policy state ⟨slice.executed + 1, slice.outcome⟩ := by
  cases reaches with
  | advanced runs notDone => exact .advanced (.head effect_eq runs) notDone
  | done runs isDone => exact .done (.head effect_eq runs) isDone
  | forked runs split_eq => exact .forked (.head effect_eq runs) split_eq
  | faulted runs fault_eq => exact .faulted (.head effect_eq runs) fault_eq

/-- The run of a state with `executed` instructions counted before. -/
theorem reaches_stepFrom
    (program : Program)
    (policy : OutputPolicy)
    (budget executed : Nat)
    (state : State) :
    ∃ slice : Slice State,
      Reaches program policy state slice ∧
        stepFrom program policy budget executed state =
          ⟨executed + slice.executed, slice.outcome⟩ := by
  -- The induction is on the budget, which the recursion uses up.
  induction budget generalizing executed state with
  | zero =>
      cases done : state.isDone program with
      | true =>
          refine ⟨⟨0, .done state⟩, .done (.refl state) done, ?_⟩
          simp [stepFrom, done]
      | false =>
          refine ⟨⟨0, .advanced state⟩, .advanced (.refl state) done, ?_⟩
          simp [stepFrom, done]
  | succ budget inductionHypothesis =>
      unfold stepFrom
      split
      · rename_i noInstruction
        have done : state.isDone program = true := by
          rw [← @effect?_eq_none_iff program policy state]
          simp [effect?, noInstruction]
        exact ⟨⟨0, .done state⟩, .done (.refl state) done, rfl⟩
      · rename_i opcode fetched
        have effect_eq : state.effect? program policy =
            some (state.countStep.execute program policy opcode) := by
          simp [effect?, fetched]
        dsimp only
        split
        · rename_i after fault executed_eq
          rw [executed_eq] at effect_eq
          exact ⟨_, .faulted (.refl state) effect_eq, rfl⟩
        · rename_i zero nonZero executed_eq
          rw [executed_eq] at effect_eq
          exact ⟨_, .forked (.refl state) effect_eq, rfl⟩
        · rename_i next executed_eq
          rw [executed_eq] at effect_eq
          obtain ⟨slice, reaches, stepFrom_eq⟩ :=
            inductionHypothesis (executed + 1) next
          refine ⟨_, reaches.head effect_eq, ?_⟩
          rw [stepFrom_eq]
          dsimp only
          rw [Nat.add_assoc, Nat.add_comm 1]

/-- A slice is a run and what ended it. -/
theorem reaches_step
    (program : Program)
    (policy : OutputPolicy)
    (budget : Nat)
    (state : State) :
    Reaches program policy state (state.step program policy budget) := by
  obtain ⟨slice, reaches, step_eq⟩ :=
    reaches_stepFrom program policy budget 0 state
  unfold step
  rw [step_eq, Nat.zero_add]
  exact reaches

end State

/-! ## Reachable states -/

namespace Outcome

/-- The states on which a run ends. -/
def states : Outcome σ -> List σ
  | .advanced state => [state]
  | .done state => [state]
  | .forked _ zero nonZero => [zero, nonZero]
  | .faulted state _ => [state]

/-- The states on which a run ends without a fault. -/
def unfaulted : Outcome σ -> List σ
  | .faulted _ _ => []
  | outcome => outcome.states

end Outcome

namespace State

/-- The states that are met when a program is run from its start, in slices of
any budgets and following either side of every split.  A state that faulted is
one of them and may be run again. -/
inductive Reachable
    (program : Program)
    (policy : OutputPolicy)
    (capacity : Nat) : State -> Prop
  | initial : Reachable program policy capacity (State.initial capacity)
  | step
      {state next : State}
      (budget : Nat)
      (reachable : Reachable program policy capacity state)
      (member : next ∈ (state.step program policy budget).outcome.states) :
      Reachable program policy capacity next

/-- The reachable states on whose path nothing has faulted. -/
inductive Unfaulted
    (program : Program)
    (policy : OutputPolicy)
    (capacity : Nat) : State -> Prop
  | initial : Unfaulted program policy capacity (State.initial capacity)
  | step
      {state next : State}
      (budget : Nat)
      (unfaulted : Unfaulted program policy capacity state)
      (member : next ∈ (state.step program policy budget).outcome.unfaulted) :
      Unfaulted program policy capacity next

section Invariants

variable {program : Program} {policy : OutputPolicy} {capacity : Nat}
variable {property : State -> Prop}

/-- A property that every instruction preserves is preserved by a run. -/
theorem Runs.preserves
    (preserved : ∀ {state effect}, property state ->
      state.effect? program policy = some effect -> effect.All property)
    {count : Nat}
    {state last : State}
    (runs : Runs program policy count state last)
    (holds : property state) :
    property last := by
  induction runs with
  | refl state => exact holds
  | head effect_eq rest inductionHypothesis =>
      exact inductionHypothesis (preserved holds effect_eq)

/-- A property that every instruction preserves holds of all states on which a
slice ends without a fault. -/
theorem Reaches.preserves
    (preserved : ∀ {state effect}, property state ->
      state.effect? program policy = some effect -> effect.All property)
    {state next : State}
    {slice : Slice State}
    (reaches : Reaches program policy state slice)
    (holds : property state)
    (member : next ∈ slice.outcome.unfaulted) :
    property next := by
  cases reaches with
  | advanced runs notDone =>
      rw [List.mem_singleton.mp member]
      exact runs.preserves preserved holds
  | done runs isDone =>
      rw [List.mem_singleton.mp member]
      exact runs.preserves preserved holds
  | forked runs effect_eq =>
      have sides := preserved (runs.preserves preserved holds) effect_eq
      rcases List.mem_cons.mp member with rfl | member
      · exact sides.1
      · rw [List.mem_singleton.mp member]
        exact sides.2
  | faulted runs effect_eq => cases member

/-- An invariant of the states on whose path nothing has faulted. -/
theorem Unfaulted.invariant
    (initially : property (State.initial capacity))
    (preserved : ∀ {state effect}, property state ->
      state.effect? program policy = some effect -> effect.All property)
    {state : State}
    (unfaulted : Unfaulted program policy capacity state) :
    property state := by
  induction unfaulted with
  | initial => exact initially
  | step budget unfaulted member inductionHypothesis =>
      exact (reaches_step program policy budget _).preserves preserved
        inductionHypothesis member

/-- An invariant of all reachable states.  An instruction that faults is
counted and changes nothing else. -/
theorem Reachable.invariant
    (initially : property (State.initial capacity))
    (preserved : ∀ {state effect}, property state ->
      state.effect? program policy = some effect -> effect.All property)
    (counted : ∀ {state : State}, property state -> property state.countStep)
    {state : State}
    (reachable : Reachable program policy capacity state) :
    property state := by
  induction reachable with
  | initial => exact initially
  | @step state next budget reachable member inductionHypothesis =>
      have reaches := reaches_step program policy budget state
      generalize state.step program policy budget = slice at reaches member
      cases reaches with
      | advanced runs notDone =>
          exact (Reaches.advanced runs notDone).preserves preserved
            inductionHypothesis member
      | done runs isDone =>
          exact (Reaches.done runs isDone).preserves preserved
            inductionHypothesis member
      | forked runs effect_eq =>
          exact (Reaches.forked runs effect_eq).preserves preserved
            inductionHypothesis member
      | faulted runs effect_eq =>
          cases extends_of_effect? effect_eq with
          | fault fault =>
              rw [List.mem_singleton.mp member]
              exact counted (runs.preserves preserved inductionHypothesis)

end Invariants
end State
end SymbolicTape
