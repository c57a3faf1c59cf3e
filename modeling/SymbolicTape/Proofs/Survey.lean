import Mathlib.Data.Multiset.Filter
import SymbolicTape.Proofs.Engine

/-!
# Explorations in any order

A survey knows which states are still to be run, which have ended and how much
was done so far, and nothing about order.  It goes on by running any of its
states for a single instruction.  Every history of the engine, whatever its
strategy, its slices, its limits and its interruptions, is a sequence of such
steps.

Two steps on different states can be taken in either order with the same
result.  All surveys of a program that come to an end therefore end alike.
-/

namespace SymbolicTape

/-- What is known about an exploration if order does not matter. -/
@[ext] structure Survey where
  /-- The states that are still to be run. -/
  pending : Multiset State := 0
  /-- The states that reached the end of the program. -/
  completed : Multiset State := 0
  /-- The states that faulted, with their faults. -/
  faulted : Multiset (State × Located Fault) := 0
  /-- The number of instructions executed. -/
  steps : Nat := 0
  /-- The number of states that were split. -/
  forks : Nat := 0
  /-- The number of sides that were dropped. -/
  drops : Nat := 0

namespace Survey

instance : Zero Survey := ⟨{}⟩

/-- Two parts of an exploration, taken together. -/
instance : Add Survey where
  add first second :=
    { pending := first.pending + second.pending
      completed := first.completed + second.completed
      faulted := first.faulted + second.faulted
      steps := first.steps + second.steps
      forks := first.forks + second.forks
      drops := first.drops + second.drops }

instance : AddCommMonoid Survey where
  add_assoc first second third := by
    ext1 <;> exact add_assoc _ _ _
  zero_add survey := by
    ext1 <;> exact zero_add _
  add_zero survey := by
    ext1 <;> exact add_zero _
  add_comm first second := by
    ext1 <;> exact add_comm _ _
  nsmul := nsmulRec

/-- A state that is to be run. -/
def waiting (state : State) : Survey := { pending := {state} }

theorem waiting_add (state : State) (survey : Survey) :
    waiting state + survey =
      { survey with pending := state ::ₘ survey.pending } := by
  ext1
  · exact Multiset.singleton_add _ _
  all_goals exact zero_add _

/-- A number of instructions. -/
def work (steps : Nat) : Survey := { steps := steps }

theorem work_add (first second : Nat) :
    work (first + second) = work first + work second := rfl

end Survey

/-- Whether a side of a split is dropped. -/
def State.isDropped (prune : Bool) (state : State) : Bool :=
  prune && state.constraint.feasibility.isInfeasible

/-- What comes out of the instruction at a location. -/
def Effect.survey (prune : Bool) (location : Nat) : Effect -> Survey
  | .next after => { pending := {after}, steps := 1 }
  | .split zero nonZero =>
      let sides := [zero, nonZero]
      { pending :=
          Multiset.ofList (sides.filter fun side => !side.isDropped prune)
        steps := 1
        forks := 1
        drops := (sides.filter (State.isDropped prune)).length }
  | .fault after reason =>
      { faulted := {(after, ⟨location, reason⟩)}, steps := 1 }

namespace State

/-- What comes out of running a state for one instruction. -/
def survey
    (program : Program)
    (policy : OutputPolicy)
    (prune : Bool)
    (state : State) : Survey :=
  match state.effect? program policy with
  | none => { completed := {state} }
  | some effect => effect.survey prune state.instructionPointer

section Survey

variable {program : Program} {policy : OutputPolicy} {state : State}

theorem survey_of_isDone
    (prune : Bool)
    (isDone : state.isDone program = true) :
    state.survey program policy prune = { completed := {state} } := by
  unfold survey
  rw [effect?_eq_none_iff.mpr isDone]

theorem survey_of_effect?
    (prune : Bool)
    {effect : Effect}
    (effect_eq : state.effect? program policy = some effect) :
    state.survey program policy prune =
      effect.survey prune state.instructionPointer := by
  unfold survey
  rw [effect_eq]

end Survey
end State

namespace Survey

/-- One of the states is run for one instruction. -/
inductive Step
    (program : Program)
    (policy : OutputPolicy)
    (prune : Bool) : Survey -> Survey -> Prop
  | run
      {before rest : Survey}
      {state : State}
      (taken : before = waiting state + rest) :
      Step program policy prune before
        (state.survey program policy prune + rest)

/-- Two ways to take out a state take out the same one, or each leaves the
other's. -/
theorem eq_or_exists_of_waiting_add
    {first second : State}
    {firstRest secondRest : Survey}
    (same : waiting first + firstRest = waiting second + secondRest) :
    (first = second ∧ firstRest = secondRest) ∨
      ∃ others,
        firstRest = waiting second + others ∧
          secondRest = waiting first + others := by
  obtain ⟨firstPending, completed, faulted, steps, forks, drops⟩ := firstRest
  obtain ⟨secondPending, _, _, _, _, _⟩ := secondRest
  rw [waiting_add, waiting_add] at same
  injection same with pending_eq completed_eq faulted_eq steps_eq forks_eq
    drops_eq
  subst completed_eq faulted_eq steps_eq forks_eq drops_eq
  rcases Multiset.cons_eq_cons.mp pending_eq with
    ⟨rfl, rfl⟩ | ⟨-, pending, rfl, rfl⟩
  · exact .inl ⟨rfl, rfl⟩
  · refine .inr ⟨⟨pending, completed, faulted, steps, forks, drops⟩, ?_, ?_⟩
    · rw [waiting_add]
    · rw [waiting_add]

section Confluence

open Relation

variable {program : Program} {policy : OutputPolicy} {prune : Bool}

/-- Two steps run the same state, or each can be followed by the other. -/
theorem Step.diamond
    {before first second : Survey}
    (firstStep : Step program policy prune before first)
    (secondStep : Step program policy prune before second) :
    ∃ after,
      ReflGen (Step program policy prune) first after ∧
        ReflTransGen (Step program policy prune) second after := by
  cases firstStep with
  | @run firstRest firstState firstTaken =>
      cases secondStep with
      | @run secondRest secondState secondTaken =>
          rcases eq_or_exists_of_waiting_add
              (firstTaken.symm.trans secondTaken) with
            ⟨rfl, rfl⟩ | ⟨others, rfl, rfl⟩
          · exact ⟨_, .refl, .refl⟩
          · refine ⟨_, .single (.run (add_left_comm _ _ _)), .single ?_⟩
            rw [add_left_comm _ (firstState.survey program policy prune)]
            exact .run (add_left_comm _ _ _)

/-- A survey without states does not go on. -/
theorem eq_of_pending_eq_zero
    {survey after : Survey}
    (finished : survey.pending = 0)
    (steps : ReflTransGen (Step program policy prune) survey after) :
    after = survey := by
  rcases steps.cases_head with rfl | ⟨next, step, -⟩
  · rfl
  · cases step with
    | run taken =>
        rw [taken, waiting_add] at finished
        exact absurd finished Multiset.cons_ne_zero

/-- All surveys that come to an end end alike. -/
theorem eq_of_finished
    {before first second : Survey}
    (firstSteps : ReflTransGen (Step program policy prune) before first)
    (firstFinished : first.pending = 0)
    (secondSteps : ReflTransGen (Step program policy prune) before second)
    (secondFinished : second.pending = 0) :
    first = second := by
  obtain ⟨after, fromFirst, fromSecond⟩ := church_rosser
    (fun _ _ _ firstStep secondStep => firstStep.diamond secondStep)
    firstSteps secondSteps
  rw [← eq_of_pending_eq_zero firstFinished fromFirst,
    ← eq_of_pending_eq_zero secondFinished fromSecond]

/-- A number of instructions of one state, while the others wait. -/
theorem steps_of_runs
    (prune : Bool)
    {count : Nat}
    {state last : State}
    (runs : State.Runs program policy count state last)
    (rest : Survey) :
    ReflTransGen (Step program policy prune)
      (waiting state + rest)
      (waiting last + (work count + rest)) := by
  induction runs generalizing rest with
  | refl state =>
      have nothing : work 0 + rest = rest := zero_add rest
      rw [nothing]
  | @head state next last count effect_eq remaining inductionHypothesis =>
      have first : Step program policy prune (waiting state + rest)
          (waiting next + (work 1 + rest)) := by
        have run := @Step.run program policy prune _ rest state rfl
        rw [State.survey_of_effect? prune effect_eq] at run
        rw [← add_assoc]
        exact run
      have work_eq : work (count + 1) + rest = work count + (work 1 + rest) := by
        rw [work_add, add_assoc]
      rw [work_eq]
      exact .head first (inductionHypothesis _)

/-- A number of instructions of one state and the one that ends its slice. -/
theorem steps_of_runs_last
    (prune : Bool)
    {count : Nat}
    {state last : State}
    (runs : State.Runs program policy count state last)
    (rest : Survey) :
    ReflTransGen (Step program policy prune)
      (waiting state + rest)
      (last.survey program policy prune + work count + rest) := by
  rw [add_assoc]
  exact .tail (steps_of_runs prune runs rest) (.run rfl)

end Confluence
end Survey

/-! ## Histories of the engine as surveys -/

namespace Engine

/-- The survey of an engine. -/
def survey (engine : Engine) : Survey where
  pending := Multiset.ofList (engine.pending.map Path.state)
  completed := Multiset.ofList (engine.completed.toList.map Path.state)
  faulted := Multiset.ofList (engine.faulted.toList.map fun entry =>
    (entry.path.state, entry.fault))
  steps := engine.statistics.totalSteps
  forks := engine.statistics.forks
  drops := engine.statistics.pruned

theorem Rests.survey_eq
    {before after : Engine}
    (rests : Rests before after) :
    after.survey = before.survey := by
  unfold survey
  rw [rests.pending, rests.statistics, rests.completed, rests.faulted]

/-- What comes out of a slice. -/
def surveySlice (engine : Engine) (slice : Slice Path) : Survey where
  pending := Multiset.ofList ((engine.kept slice.outcome).map Path.state)
  completed := Multiset.ofList (slice.outcome.completed.map Path.state)
  faulted := Multiset.ofList (slice.outcome.faultedPaths.map fun entry =>
    (entry.path.state, entry.fault))
  steps := slice.executed
  forks := slice.outcome.forkCount
  drops := (engine.dropped slice.outcome).length

/-- The survey of an engine whose worklist is another one. -/
def surveyWith (engine : Engine) (worklist : Worklist Path) : Survey :=
  { engine.survey with
    pending := Multiset.ofList (worklist.toList.map Path.state) }

/-- A path that is taken off the worklist was waiting. -/
theorem survey_eq_waiting_add
    {engine : Engine}
    {path : Path}
    {rest : Worklist Path}
    (taken : engine.worklist.toList.Perm (path :: rest.toList)) :
    engine.survey = Survey.waiting path.state + engine.surveyWith rest := by
  have pending_eq : engine.survey.pending =
      path.state ::ₘ Multiset.ofList (rest.toList.map Path.state) :=
    Multiset.coe_eq_coe.mpr (taken.map Path.state)
  rw [Survey.waiting_add]
  ext1
  · exact pending_eq
  all_goals rfl

/-- Filing a slice adds what came out of it. -/
theorem Filed.survey_eq
    {before after : Engine}
    {rest : Worklist Path}
    {slice : Slice Path}
    (filed : Filed before rest slice after) :
    after.survey = before.surveySlice slice + before.surveyWith rest := by
  rw [add_comm]
  ext1
  · rw [add_comm]
    refine (Multiset.coe_eq_coe.mpr (filed.pending.map Path.state)).trans ?_
    rw [List.map_append]
    exact (Multiset.coe_add _ _).symm
  · unfold survey
    dsimp only
    rw [filed.completed, List.map_append]
    exact (Multiset.coe_add _ _).symm
  · unfold survey
    dsimp only
    rw [filed.faulted, List.map_append]
    exact (Multiset.coe_add _ _).symm
  · exact filed.totalSteps
  · exact filed.forks
  · exact filed.pruned

section Slices

variable (engine : Engine) (count : Nat)

theorem surveySlice_advanced (path : Path) :
    engine.surveySlice ⟨count, .advanced path⟩ =
      Survey.waiting path.state + Survey.work count := by
  ext1
  case steps => exact (Nat.zero_add count).symm
  all_goals rfl

theorem surveySlice_done (path : Path) :
    engine.surveySlice ⟨count, .done path⟩ =
      { completed := {path.state} } + Survey.work count := by
  ext1
  case steps => exact (Nat.zero_add count).symm
  all_goals rfl

theorem surveySlice_faulted
    (path : Path)
    (location : Nat)
    (reason : Fault) :
    engine.surveySlice ⟨count + 1, .faulted path ⟨location, reason⟩⟩ =
      (Effect.fault path.state reason).survey engine.config.pruneInfeasible
          location
        + Survey.work count := by
  ext1
  case steps => exact Nat.add_comm count 1
  all_goals rfl

/-- The sides of a fork are those of the states that split. -/
theorem surveySlice_forked (location : Nat) (zero nonZero : Path) :
    engine.surveySlice ⟨count + 1, .forked location zero nonZero⟩ =
      (Effect.split zero.state nonZero.state).survey
          engine.config.pruneInfeasible location
        + Survey.work count := by
  have states_eq (keep : State -> Bool) :
      ([zero, nonZero].filter fun side => keep side.state).map Path.state =
        [zero.state, nonZero.state].filter keep :=
    List.filter_map.symm
  ext1
  · exact (congrArg Multiset.ofList (states_eq fun side =>
      !side.isDropped engine.config.pruneInfeasible)).trans (add_zero _).symm
  · rfl
  · rfl
  · exact Nat.add_comm count 1
  · rfl
  · refine Eq.trans ?_ (congrArg List.length
      (states_eq (State.isDropped engine.config.pruneInfeasible)))
    rw [List.length_map]
    rfl

end Slices

open Relation in
/-- A slice is a number of steps of one state. -/
theorem steps_runSlice
    (engine : Engine)
    (budget : Nat)
    (path : Path)
    (rest : Survey) :
    ReflTransGen
      (Survey.Step engine.program engine.config.outputPolicy
        engine.config.pruneInfeasible)
      (Survey.waiting path.state + rest)
      (engine.surveySlice (engine.runSlice budget path) + rest) := by
  refine runSlice_cases budget ?_ ?_ ?_ ?_
  · intro count last runs
    rw [surveySlice_advanced, add_assoc]
    exact Survey.steps_of_runs _ runs rest
  · intro count last runs isDone
    rw [surveySlice_done, ← State.survey_of_isDone _ isDone]
    exact Survey.steps_of_runs_last _ runs rest
  · intro count last zero nonZero runs effect_eq
    rw [surveySlice_forked]
    dsimp only [Path.child]
    rw [← State.survey_of_effect? _ effect_eq]
    exact Survey.steps_of_runs_last _ runs rest
  · intro count last reason runs effect_eq
    rw [surveySlice_faulted, ← State.survey_of_effect? _ effect_eq]
    exact Survey.steps_of_runs_last _ runs rest

open Relation in
/-- The history of an engine is a sequence of steps of surveys. -/
theorem Reached.steps_survey
    {program : Program}
    {config : Config}
    {watchdog : Watchdog}
    {engine : Engine}
    (reached : Reached program config watchdog engine) :
    ReflTransGen
      (Survey.Step program config.outputPolicy config.pruneInfeasible)
      (Survey.waiting (State.initial config.tapeCapacity)) engine.survey := by
  refine reached.invariant
    (fun engine => ReflTransGen
      (Survey.Step program config.outputPolicy config.pruneInfeasible)
      (Survey.waiting (State.initial config.tapeCapacity)) engine.survey)
    ?_ ?_ ?_
  · intro names
    exact .refl
  · intro before after steps rests
    rwa [rests.survey_eq]
  · intro before path rest after budget program_eq config_eq steps taken filed
    have slice := steps_runSlice before budget path (before.surveyWith rest)
    rw [← survey_eq_waiting_add taken, program_eq, config_eq] at slice
    rw [filed.survey_eq]
    exact steps.trans slice

theorem pending_survey_of_isComplete
    {engine : Engine}
    (complete : engine.isComplete = true) :
    engine.survey.pending = 0 := by
  unfold survey
  rw [isComplete_iff.mp complete]
  rfl

/-- Explorations of a program that leave nothing to be run have found the same
paths with the same work, if they agree on the tape, on symbolic output and on
pruning.  Strategies, slices, limits, watchdogs and the number of calls do not
matter. -/
theorem scheduling_is_immaterial
    {program : Program}
    {firstConfig secondConfig : Config}
    {firstWatchdog secondWatchdog : Watchdog}
    {first second : Engine}
    (capacity_eq : firstConfig.tapeCapacity = secondConfig.tapeCapacity)
    (policy_eq : firstConfig.outputPolicy = secondConfig.outputPolicy)
    (prune_eq : firstConfig.pruneInfeasible = secondConfig.pruneInfeasible)
    (firstReached : Reached program firstConfig firstWatchdog first)
    (firstComplete : first.isComplete = true)
    (secondReached : Reached program secondConfig secondWatchdog second)
    (secondComplete : second.isComplete = true) :
    Multiset.ofList (first.completed.toList.map Path.state) =
        Multiset.ofList (second.completed.toList.map Path.state) ∧
      Multiset.ofList (first.faulted.toList.map fun entry =>
          (entry.path.state, entry.fault)) =
        Multiset.ofList (second.faulted.toList.map fun entry =>
          (entry.path.state, entry.fault)) ∧
      first.statistics.totalSteps = second.statistics.totalSteps ∧
      first.statistics.forks = second.statistics.forks ∧
      first.statistics.pruned = second.statistics.pruned := by
  have firstSteps := firstReached.steps_survey
  have secondSteps := secondReached.steps_survey
  rw [capacity_eq, policy_eq, prune_eq] at firstSteps
  have survey_eq : first.survey = second.survey :=
    Survey.eq_of_finished firstSteps
      (pending_survey_of_isComplete firstComplete) secondSteps
      (pending_survey_of_isComplete secondComplete)
  exact ⟨congrArg Survey.completed survey_eq, congrArg Survey.faulted survey_eq,
    congrArg Survey.steps survey_eq, congrArg Survey.forks survey_eq,
    congrArg Survey.drops survey_eq⟩

/-- Two input bytes, each of which decides whether the head moves. -/
def twoBranches : Program :=
  ⟨#[.read, .loopEnter, .moveRight, .loopExit, .read, .loopEnter, .moveRight,
    .loopExit], none⟩

/-- The two branches before they are explored, depth first. -/
def deepEngine : Engine :=
  create twoBranches { tapeCapacity := 4 } .idle

/-- The two branches before they are explored, breadth first, in slices of two
instructions and in calls of seven. -/
def broadEngine : Engine :=
  create twoBranches
    { tapeCapacity := 4, strategy := .breadthFirst, stepsPerSlice := 2
      maximumTotalSteps := 7 }
    .idle

/-- Depth first, the four paths are found in the order of their branches. -/
theorem execute_deepEngine :
    let zero := fun index => Predicate.isZero (.symbol (inputName index))
    let nonZero := fun index => Predicate.isNonZero (.symbol (inputName index))
    deepEngine.execute.1 = none ∧
      deepEngine.execute.2.completed.toList.map
          (fun path => path.state.constraint.clauses) =
        [[zero 0, zero 1], [zero 0, nonZero 1], [nonZero 0, zero 1],
          [nonZero 0, nonZero 1]] ∧
      deepEngine.execute.2.statistics.forks = 3 ∧
      deepEngine.execute.2.statistics.pruned = 0 := by
  rw [execute_eq_complete]
  iterate 7 rw [complete_of_next rfl]
  rw [complete_of_finished rfl]
  exact ⟨rfl, rfl, rfl, rfl⟩

/-- A single call depth first and two calls breadth first, of which one is cut
short, find the same four paths. -/
theorem scheduling_is_immaterial_twoBranches :
    let zero := fun index => Predicate.isZero (.symbol (inputName index))
    let nonZero := fun index => Predicate.isNonZero (.symbol (inputName index))
    deepEngine.execute.1 = none ∧
      deepEngine.execute.2.completed.toList.map
          (fun path => path.state.constraint.clauses) =
        [[zero 0, zero 1], [zero 0, nonZero 1], [nonZero 0, zero 1],
          [nonZero 0, nonZero 1]] ∧
      broadEngine.execute.1 = some (.stepLimit 7) ∧
      broadEngine.execute.2.execute.1 = none ∧
      Multiset.ofList (deepEngine.execute.2.completed.toList.map Path.state) =
        Multiset.ofList
          (broadEngine.execute.2.execute.2.completed.toList.map Path.state) ∧
      deepEngine.execute.2.statistics.totalSteps =
        broadEngine.execute.2.execute.2.statistics.totalSteps := by
  intro zero nonZero
  obtain ⟨deepEnds, clauses_eq, -, -⟩ := execute_deepEngine
  have broadStops : broadEngine.execute.1 = some (.stepLimit 7) := by
    rw [execute_eq_complete]
    iterate 5 rw [complete_of_next rfl]
    exact congrArg Prod.fst (complete_of_truncated rfl)
  have broadEnds : broadEngine.execute.2.execute.1 = none := by
    rw [execute_eq_complete broadEngine]
    iterate 5 rw [complete_of_next rfl]
    rw [complete_of_truncated rfl, execute_eq_complete]
    iterate 4 rw [complete_of_next rfl]
    rw [complete_of_finished rfl]
  have deepReached : Reached twoBranches _ _ deepEngine.execute.2 :=
    .executed (.created _)
  have broadReached :
      Reached twoBranches _ _ broadEngine.execute.2.execute.2 :=
    .executed (.executed (.created _))
  have immaterial := scheduling_is_immaterial (by rfl) (by rfl) (by rfl)
    deepReached (isComplete_of_execute deepEnds)
    broadReached (isComplete_of_execute broadEnds)
  exact ⟨deepEnds, clauses_eq, broadStops, broadEnds, immaterial.1,
    immaterial.2.2.1⟩

end Engine
end SymbolicTape
