import SymbolicTape.Proofs.Faults

/-!
# Budgets add up

A run within a budget can be cut anywhere and resumed.  Running a state for one
budget, and then for another if the first was used up, comes to the same as
running it once for their sum: `State.step_add` says so for states, where it is
an equation.

For paths it holds up to the names that forks give out, since a run that forks
names the sides after the paths that were named before it.
-/

namespace SymbolicTape

/-! ## Outcomes of one kind -/

/-- Two outcomes are of the same kind, with the same location or fault.  The
states of the run are related by `same`, and the sides of a fork by `side`. -/
inductive Outcome.Corresponds (same side : σ -> σ -> Prop) :
    Outcome σ -> Outcome σ -> Prop
  | advanced
      {state other : σ}
      (related : same state other) :
      Corresponds same side (.advanced state) (.advanced other)
  | done
      {state other : σ}
      (related : same state other) :
      Corresponds same side (.done state) (.done other)
  | forked
      {zero nonZero otherZero otherNonZero : σ}
      (location : Nat)
      (zeroRelated : side zero otherZero)
      (nonZeroRelated : side nonZero otherNonZero) :
      Corresponds same side (.forked location zero nonZero)
        (.forked location otherZero otherNonZero)
  | faulted
      {state other : σ}
      (fault : Located Fault)
      (related : same state other) :
      Corresponds same side (.faulted state fault) (.faulted other fault)

/-- Two paths differ in nothing but their own names. -/
def Path.SameButForName (path other : Path) : Prop :=
  path.parent = other.parent ∧ path.state = other.state

/-- Two outcomes differ in nothing but the names that a fork gives to its
sides. -/
def Outcome.SameUpToNames : Outcome Path -> Outcome Path -> Prop :=
  Outcome.Corresponds (· = ·) Path.SameButForName

/-- Go on with a run that was cut off. -/
def Slice.resume (slice : Slice σ) (run : σ -> Slice σ) : Slice σ :=
  match slice.outcome with
  | .advanced state =>
      ⟨slice.executed + (run state).executed, (run state).outcome⟩
  | _ => slice

/-! ## States -/

namespace State

variable {program : Program} {policy : OutputPolicy}

theorem executed_step_le (budget : Nat) (state : State) :
    (state.step program policy budget).executed ≤ budget := by
  have atMost := @executed_stepFrom_le program policy budget 0 state
  rwa [Nat.zero_add] at atMost

/-- A run that is cut off has used up its budget, and there is an instruction
left to execute. -/
theorem of_step_eq_advanced
    {budget : Nat}
    {state next : State}
    (cutOff : (state.step program policy budget).outcome = .advanced next) :
    (state.step program policy budget).executed = budget ∧
      Runs program policy budget state next ∧
      next.isDone program = false := by
  have used := @executed_stepFrom_of_isAdvanced program policy budget 0 state
    (congrArg Outcome.isAdvanced cutOff)
  rw [Nat.zero_add] at used
  have reaches := reaches_step program policy budget state
  unfold step at cutOff reaches ⊢
  generalize stepFrom program policy budget 0 state = slice
    at cutOff reaches used ⊢
  cases reaches with
  | advanced runs notDone =>
      cases cutOff
      subst used
      exact ⟨rfl, runs, notDone⟩
  | done | forked | faulted => cases cutOff

/-- All states on which a run ends count its instructions. -/
theorem Reaches.steps_eq
    {state next : State}
    {slice : Slice State}
    (reaches : Reaches program policy state slice)
    (member : next ∈ slice.outcome.states) :
    next.steps = state.steps + slice.executed := by
  cases reaches with
  | advanced runs notDone =>
      rw [List.mem_singleton.mp member]
      exact runs.steps_eq
  | done runs isDone =>
      rw [List.mem_singleton.mp member]
      exact runs.steps_eq
  | forked runs effect_eq =>
      have counted := congrArg Nat.succ runs.steps_eq
      cases extends_of_effect? effect_eq with
      | split whenZero zero_eq nonZero_eq zeroSteps_eq nonZeroSteps_eq =>
          rcases List.mem_pair.mp member with rfl | rfl
          · exact zeroSteps_eq.trans counted
          · exact nonZeroSteps_eq.trans counted
  | faulted runs effect_eq =>
      rw [List.mem_singleton.mp member, eq_countStep_of_fault effect_eq]
      exact congrArg Nat.succ runs.steps_eq

/-- A run for a sum of budgets is a run for the first one, resumed for the
second one. -/
theorem step_add (budget more : Nat) (state : State) :
    state.step program policy (budget + more) =
      (state.step program policy budget).resume
        (step program policy more) := by
  unfold Slice.resume
  cases outcome_eq : (state.step program policy budget).outcome with
  | advanced next =>
      obtain ⟨used, runs, -⟩ := of_step_eq_advanced outcome_eq
      rw [runs.step_add, used]
  | done | forked | faulted =>
      exact stepFrom_add_of_not_isAdvanced
        (congrArg Outcome.isAdvanced outcome_eq) more

end State

/-! ## Paths -/

namespace Path

variable {program : Program} {policy : OutputPolicy}

theorem child_sameButForName
    (path : Path)
    (identifier other : Identifier)
    (state : State) :
    (path.child identifier state).SameButForName (path.child other state) :=
  ⟨rfl, rfl⟩

/-- The names that a fork gives out are all that depends on the names so far. -/
theorem follow_sameUpToNames
    (path : Path)
    (names otherNames : Names)
    (outcome : Outcome State) :
    (path.follow names outcome).SameUpToNames
      (path.follow otherNames outcome) := by
  cases outcome with
  | advanced state => exact .advanced rfl
  | done state => exact .done rfl
  | forked location zero nonZero =>
      exact .forked location (child_sameButForName path _ _ zero)
        (child_sameButForName path _ _ nonZero)
  | faulted state fault => exact .faulted fault rfl

theorem states_follow
    (path : Path)
    (names : Names)
    (outcome : Outcome State) :
    (path.follow names outcome).states.map Path.state = outcome.states := by
  cases outcome <;> rfl

/-- Only a state that is cut off makes its path be cut off. -/
theorem exists_of_follow_eq_advanced
    {path next : Path}
    {names : Names}
    {outcome : Outcome State}
    (cutOff : path.follow names outcome = .advanced next) :
    ∃ state,
      outcome = .advanced state ∧ next = { path with state := state } := by
  cases outcome with
  | advanced state =>
      cases cutOff
      exact ⟨state, rfl, rfl⟩
  | done | forked | faulted => cases cutOff

/-- Budgets add up, whatever a path looks like and whatever the names so far.  A
slice executes no more instructions than its budget, and all paths on which it
ends count them.  If it is cut off, then it has used up its budget, the program
has not ended, and a slice for a larger budget comes to the same, up to the
names of the sides of a fork, as running the rest of the budget on the path that
was cut off.  If it is not cut off, then a slice for a larger budget comes to
the same as this one. -/
theorem budgets_add_up
    (program : Program)
    (policy : OutputPolicy)
    (path : Path)
    (budget more : Nat)
    (names restNames wholeNames : Names) :
    let slice := path.step program policy names budget
    let whole := path.step program policy wholeNames (budget + more)
    slice.executed ≤ budget ∧
      (∀ next ∈ slice.outcome.states,
        next.state.steps = path.state.steps + slice.executed) ∧
      (∀ next, slice.outcome = .advanced next ->
        let rest := next.step program policy restNames more
        slice.executed = budget ∧
          next.state.isDone program = false ∧
          whole.executed = budget + rest.executed ∧
          whole.outcome.SameUpToNames rest.outcome) ∧
      ((∀ next, slice.outcome ≠ .advanced next) ->
        whole.executed = slice.executed ∧
          whole.outcome.SameUpToNames slice.outcome) := by
  have whole_eq := @State.step_add program policy budget more path.state
  refine ⟨State.executed_step_le budget path.state, ?_, ?_, ?_⟩
  · intro next member
    have reaches := State.reaches_step program policy budget path.state
    apply reaches.steps_eq
    rw [← path.states_follow names]
    exact List.mem_map_of_mem member
  · intro next cutOff
    obtain ⟨state, state_eq, rfl⟩ := exists_of_follow_eq_advanced cutOff
    obtain ⟨used, -, notDone⟩ := State.of_step_eq_advanced state_eq
    rw [Slice.resume, state_eq, used] at whole_eq
    unfold step
    rw [whole_eq]
    exact ⟨used, notDone, rfl, path.follow_sameUpToNames wholeNames restNames _⟩
  · intro notCutOff
    unfold step
    rw [whole_eq, Slice.resume]
    split
    · rename_i state state_eq
      exact absurd (congrArg (path.follow names) state_eq) (notCutOff _)
    · exact ⟨rfl, path.follow_sameUpToNames wholeNames names _⟩

/-- A program that reads a byte and tests it. -/
def readThenTest : Program :=
  ⟨#[.read, .loopEnter, .moveRight, .loopExit], none⟩

/-- A path at the start of the program, on a tape of one cell. -/
def startingPath : Path := Path.initial (.counting 0) 1

/-- The first instruction of the program uses up a budget of one.  The rest of a
budget of four forks the path at the test, and so does the whole budget, with
other names.  A larger budget makes no difference after the fork. -/
theorem budgets_add_up_readThenTest :
    ∃ next : Path, ∃ rest whole larger : Outcome Path,
      startingPath.step readThenTest .rejectSymbolic (.counting 1) 1 =
          ⟨1, .advanced next⟩ ∧
        next.step readThenTest .rejectSymbolic (.counting 3) 3 = ⟨1, rest⟩ ∧
        startingPath.step readThenTest .rejectSymbolic (.counting 5) (1 + 3) =
          ⟨2, whole⟩ ∧
        startingPath.step readThenTest .rejectSymbolic (.counting 7)
            (1 + 3 + 6) =
          ⟨2, larger⟩ ∧
        rest.states.length = 2 ∧
        whole.SameUpToNames rest ∧
        larger.SameUpToNames whole := by
  obtain ⟨next, rest, first_eq, rest_eq, twoSides⟩ :
      ∃ next rest,
        startingPath.step readThenTest .rejectSymbolic (.counting 1) 1 =
            ⟨1, .advanced next⟩ ∧
          next.step readThenTest .rejectSymbolic (.counting 3) 3 = ⟨1, rest⟩ ∧
          rest.states.length = 2 :=
    ⟨_, _, rfl, rfl, rfl⟩
  obtain ⟨-, -, resumes, -⟩ :=
    budgets_add_up readThenTest .rejectSymbolic startingPath 1 3 (.counting 1)
      (.counting 3) (.counting 5)
  obtain ⟨-, -, -, sameAsRest⟩ :=
    resumes next (congrArg Slice.outcome first_eq)
  obtain ⟨-, -, -, ended⟩ :=
    budgets_add_up readThenTest .rejectSymbolic startingPath (1 + 3) 6
      (.counting 5) (.counting 5) (.counting 7)
  obtain ⟨-, sameAsWhole⟩ := ended (fun next cutOff => by cases cutOff)
  rw [rest_eq] at sameAsRest
  exact ⟨next, rest, _, _, first_eq, rest_eq, rfl, rfl, twoSides, sameAsRest,
    sameAsWhole⟩

end Path
end SymbolicTape
