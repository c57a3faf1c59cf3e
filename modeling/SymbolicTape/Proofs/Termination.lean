import Mathlib.Algebra.BigOperators.Group.Multiset.Basic
import Mathlib.Algebra.Order.BigOperators.Group.Multiset
import Mathlib.Algebra.Order.Group.Nat
import SymbolicTape.Proofs.PrunedSurvey
import SymbolicTape.Proofs.Simulation
import SymbolicTape.Proofs.Turns

/-!
# Explorations with pruning come to an end

If the machine halts on every input within one bound, then so does every path
that an exploration with pruning follows, because some input satisfies its
constraint and the machine follows the path on this input.

A path splits in two at most, so the paths form a tree of bounded depth.  The
weight of a state is large enough to pay for the instructions and the ended
states that can still come out of it.  Running a state never costs more than its
weight, which bounds the work of the whole exploration, and a limit above this
bound is never reached.
-/

namespace SymbolicTape

/-! ## The length of a path -/

/-- Whatever the reads store, the machine reaches the end or faults within a
number of instructions. -/
def Program.HaltsWithin
    (program : Program)
    (capacity bound : Nat) : Prop :=
  ∀ input : InputStream,
    ((Machine.initial (.fixed capacity)).run program input bound).isSome = true

namespace State

/-- The machine follows a state on every input that satisfies its constraint. -/
def Simulated (program : Program) (capacity : Nat) (state : State) : Prop :=
  ∀ (input : InputStream) (assignment : Assignment),
    assignment.Agrees input ->
      state.Follows program input assignment capacity

theorem simulated_initial (program : Program) (capacity : Nat) :
    (State.initial capacity).Simulated program capacity :=
  fun _ _ _ => follows_initial

section Length

variable {program : Program} {policy : OutputPolicy} {capacity bound : Nat}

theorem Simulated.effect
    {state : State}
    {effect : Effect}
    (simulated : state.Simulated program capacity)
    (effect_eq : state.effect? program policy = some effect) :
    effect.All (Simulated program capacity) := by
  cases extends_of_effect? effect_eq with
  | next constraint_eq steps_eq =>
      intro input assignment agrees
      exact (simulated input assignment agrees).effect agrees effect_eq
  | split whenZero zero_eq nonZero_eq zeroSteps_eq nonZeroSteps_eq =>
      constructor
      · intro input assignment agrees
        exact ((simulated input assignment agrees).effect agrees effect_eq).1
      · intro input assignment agrees
        exact ((simulated input assignment agrees).effect agrees effect_eq).2
  | fault reason => trivial

/-- If the machine always halts within a bound, then a possible state is at most
so many instructions from the start. -/
theorem Simulated.steps_le
    {state : State}
    (halts : program.HaltsWithin capacity bound)
    (simulated : state.Simulated program capacity)
    (possible : state.Possible) :
    state.steps ≤ bound := by
  obtain ⟨assignment, satisfied⟩ := possible
  let input : InputStream := fun index => assignment (inputName index)
  have agrees : assignment.Agrees input := fun _ => rfl
  by_contra tooLong
  have executed := simulated input assignment agrees satisfied
  have running := Machine.run_eq_none_of_after? executed
    (Nat.lt_of_not_le tooLong)
  have halted := halts input
  rw [running] at halted
  cases halted

end Length

/-! ## The cost of a state -/

/-- What can still come out of a state that is within a bound: a full binary tree
of instructions, with two more for an instruction that faults. -/
def weight (bound : Nat) (state : State) : Nat :=
  2 ^ (bound - state.steps + 2) - 1

/-- The weight of a state pays for an instruction and for two states after it. -/
theorem two_mul_weight_lt
    {bound : Nat}
    {state next : State}
    (steps_eq : next.steps = state.steps + 1)
    (within : next.steps ≤ bound) :
    2 * next.weight bound < state.weight bound := by
  have distance_eq : bound - state.steps = bound - next.steps + 1 := by omega
  have doubled : 2 ^ (bound - state.steps + 2) =
      2 * 2 ^ (bound - next.steps + 2) := by
    rw [distance_eq, Nat.add_right_comm, Nat.pow_succ, Nat.mul_comm]
  have positive := Nat.two_pow_pos (bound - next.steps + 2)
  unfold weight
  omega

/-- The weight of a state pays for an instruction that faults. -/
theorem two_le_weight (bound : Nat) (state : State) :
    2 ≤ state.weight bound := by
  have positive := Nat.two_pow_pos (bound - state.steps)
  unfold weight
  rw [Nat.pow_add]
  omega

end State

namespace Survey

/-- The work done, the states that have ended and the weight of those that have
not. -/
def cost (bound : Nat) (survey : Survey) : Nat :=
  survey.steps + survey.completed.card + survey.faulted.card
    + (survey.pending.map (State.weight bound)).sum

theorem cost_add (bound : Nat) (first second : Survey) :
    (first + second).cost bound = first.cost bound + second.cost bound := by
  have steps_eq : (first + second).steps = first.steps + second.steps := rfl
  have completed_eq : (first + second).completed.card =
      first.completed.card + second.completed.card := Multiset.card_add _ _
  have faulted_eq : (first + second).faulted.card =
      first.faulted.card + second.faulted.card := Multiset.card_add _ _
  have weight_eq :
      ((first + second).pending.map (State.weight bound)).sum =
        (first.pending.map (State.weight bound)).sum
          + (second.pending.map (State.weight bound)).sum := by
    rw [← Multiset.sum_add, ← Multiset.map_add]
    rfl
  unfold cost
  omega

theorem cost_waiting (bound : Nat) (state : State) :
    (waiting state).cost bound = state.weight bound := by
  simp [cost, waiting]

/-- The weight of those of two states that are kept. -/
theorem sum_map_filter_pair
    (keep : State -> Bool)
    (weigh : State -> Nat)
    (first second : State) :
    ((Multiset.ofList ([first, second].filter keep)).map weigh).sum =
      (if keep first then weigh first else 0)
        + (if keep second then weigh second else 0) := by
  cases keepFirst : keep first <;> cases keepSecond : keep second <;>
    simp [keepFirst, keepSecond]

section Bounded

variable {program : Program} {policy : OutputPolicy} {capacity bound : Nat}

/-- The weight of a state pays for each side of a split twice, unless the side is
dropped and costs nothing. -/
theorem two_mul_weight_side_lt
    {state side : State}
    (halts : program.HaltsWithin capacity bound)
    (shaped : side.WellShaped)
    (simulated : side.Simulated program capacity)
    (steps_eq : side.steps = state.steps + 1) :
    2 * (if !side.isDropped true then side.weight bound else 0) <
      state.weight bound := by
  split
  · rename_i kept
    have possible : side.Possible := by
      by_contra impossible
      rw [shaped.isDropped_iff.mpr impossible] at kept
      cases kept
    exact State.two_mul_weight_lt steps_eq (simulated.steps_le halts possible)
  · have positive := state.two_le_weight bound
    omega

/-- What comes out of a possible state costs no more than the state. -/
theorem cost_survey_le
    {state : State}
    (halts : program.HaltsWithin capacity bound)
    (shaped : state.WellShaped)
    (possible : state.Possible)
    (simulated : state.Simulated program capacity) :
    (state.survey program policy true).cost bound ≤ state.weight bound := by
  have fault_le := state.two_le_weight bound
  cases effect_eq : state.effect? program policy with
  | none =>
      rw [State.survey_of_isDone _ (State.effect?_eq_none_iff.mp effect_eq)]
      have cost_eq : cost bound { completed := {state} } = 1 := by simp [cost]
      omega
  | some effect =>
      have sidesShaped := shaped.effect effect_eq
      have sidesSimulated := simulated.effect effect_eq
      rw [State.survey_of_effect? _ effect_eq]
      cases State.extends_of_effect? effect_eq with
      | @next next constraint_eq steps_eq =>
          have within := State.Simulated.steps_le halts sidesSimulated
            ((State.possible_congr constraint_eq).mpr possible)
          have paid := State.two_mul_weight_lt steps_eq within
          have cost_eq : (Effect.survey true state.instructionPointer
              (.next next)).cost bound = 1 + next.weight bound := by
            simp [cost, Effect.survey]
          omega
      | @split zero nonZero whenZero _ _ zeroSteps_eq nonZeroSteps_eq =>
          have payZero := two_mul_weight_side_lt halts sidesShaped.1
            sidesSimulated.1 zeroSteps_eq
          have payNonZero := two_mul_weight_side_lt halts sidesShaped.2
            sidesSimulated.2 nonZeroSteps_eq
          unfold cost Effect.survey
          dsimp only
          rw [sum_map_filter_pair, Multiset.card_zero, Multiset.card_zero]
          omega
      | fault reason =>
          simpa [cost, Effect.survey] using fault_le

/-- All states are possible and followed by the machine, and the cost is within
a limit. -/
structure Affordable
    (program : Program)
    (capacity bound : Nat)
    (survey : Survey) : Prop where
  wellPruned : survey.WellPruned
  simulated : ∀ state ∈ survey.pending, state.Simulated program capacity
  cost_le : survey.cost bound ≤ (State.initial capacity).weight bound

theorem affordable_initial (program : Program) (capacity bound : Nat) :
    (waiting (State.initial capacity)).Affordable program capacity bound := by
  refine ⟨wellPruned_waiting (State.wellShaped_initial capacity)
    (State.possible_initial capacity), ?_, (cost_waiting bound _).le⟩
  intro state member
  rw [Multiset.mem_singleton.mp member]
  exact State.simulated_initial program capacity

/-- What comes out of a state is followed by the machine if the state is. -/
theorem simulated_of_mem_survey
    {prune : Bool}
    {state next : State}
    (simulated : state.Simulated program capacity)
    (member : next ∈ (state.survey program policy prune).pending) :
    next.Simulated program capacity := by
  cases effect_eq : state.effect? program policy with
  | none =>
      rw [State.survey_of_isDone _ (State.effect?_eq_none_iff.mp effect_eq)]
        at member
      exact absurd member (Multiset.notMem_zero next)
  | some effect =>
      have all := simulated.effect effect_eq
      rw [State.survey_of_effect? _ effect_eq] at member
      cases effect with
      | next after =>
          rw [Multiset.mem_singleton.mp member]
          exact all
      | split zero nonZero =>
          have isSide := List.mem_of_mem_filter (Multiset.mem_coe.mp member)
          rcases List.mem_cons.mp isSide with rfl | isSide
          · exact all.1
          · rw [List.mem_singleton.mp isSide]
            exact all.2
      | fault after reason => exact absurd member (Multiset.notMem_zero next)

/-- A step with pruning keeps the cost within the limit. -/
theorem Affordable.step
    {before after : Survey}
    (halts : program.HaltsWithin capacity bound)
    (affordable : before.Affordable program capacity bound)
    (step : Step program policy true before after) :
    after.Affordable program capacity bound := by
  have wellPruned := affordable.wellPruned.step step
  cases step with
  | @run rest state taken =>
      have simulated := affordable.simulated
      rw [taken, waiting_add] at simulated
      have stateSimulated := simulated state (Multiset.mem_cons_self _ _)
      refine ⟨wellPruned, ?_, ?_⟩
      · intro next member
        rcases Multiset.mem_add.mp member with new | old
        · exact simulated_of_mem_survey stateSimulated new
        · exact simulated next (Multiset.mem_cons_of_mem old)
      · obtain ⟨shaped, -⟩ :=
          every_of_waiting_add (taken ▸ affordable.wellPruned.shaped)
        obtain ⟨possible, -⟩ :=
          every_of_waiting_add (taken ▸ affordable.wellPruned.possible)
        have paid := @cost_survey_le program policy capacity bound state halts
          shaped possible stateSimulated
        have cost_le := affordable.cost_le
        rw [taken, cost_add, cost_waiting] at cost_le
        rw [cost_add]
        omega

open Relation in
theorem Affordable.steps
    {before after : Survey}
    (halts : program.HaltsWithin capacity bound)
    (affordable : before.Affordable program capacity bound)
    (steps : ReflTransGen (Step program policy true) before after) :
    after.Affordable program capacity bound := by
  induction steps with
  | refl => exact affordable
  | tail earlier last inductionHypothesis =>
      exact inductionHypothesis.step halts last

end Bounded

/-- Every state that waits costs something. -/
theorem card_pending_le_cost (bound : Nat) (survey : Survey) :
    survey.pending.card ≤ survey.cost bound := by
  have counted : survey.pending.card ≤
      (survey.pending.map (State.weight bound)).sum := by
    have weights : ∀ weight ∈ survey.pending.map (State.weight bound),
        1 ≤ weight := by
      intro weight member
      obtain ⟨state, -, rfl⟩ := Multiset.mem_map.mp member
      have positive := state.two_le_weight bound
      omega
    simpa using Multiset.card_nsmul_le_sum weights
  unfold cost
  omega

end Survey

/-! ## Explorations -/

namespace Engine

/-- No exploration with pruning costs more than its initial state can pay. -/
theorem Reached.cost_survey_le
    {program : Program}
    {config : Config}
    {watchdog : Watchdog}
    {engine : Engine}
    {bound : Nat}
    (halts : program.HaltsWithin config.tapeCapacity bound)
    (prunes : config.pruneInfeasible = true)
    (reached : Reached program config watchdog engine) :
    engine.survey.cost bound ≤
      (State.initial config.tapeCapacity).weight bound := by
  have steps := reached.steps_survey
  rw [prunes] at steps
  exact ((Survey.affordable_initial program config.tapeCapacity bound).steps
    halts steps).cost_le

theorem survey_cost (bound : Nat) (engine : Engine) :
    engine.statistics.totalSteps ≤ engine.survey.cost bound ∧
      engine.terminalCount ≤ engine.survey.cost bound ∧
      engine.pending.length ≤ engine.survey.cost bound := by
  have live := engine.survey.card_pending_le_cost bound
  have pending_eq : engine.survey.pending.card = engine.pending.length := by
    simp [survey]
  have completed_eq : engine.survey.completed.card = engine.completed.size := by
    simp [survey]
  have faulted_eq : engine.survey.faulted.card = engine.faulted.size := by
    simp [survey]
  have steps_eq : engine.survey.steps = engine.statistics.totalSteps := rfl
  refine ⟨?_, ?_, by omega⟩
  · unfold Survey.cost
    omega
  · unfold Survey.cost terminalCount
    omega

end Engine

/-- If the machine halts within one bound whatever it reads, then an exploration
with pruning follows all paths to their end and leaves none to be run, under any
strategy and in slices of any size, provided that its limits are large enough and
nobody stops it. -/
theorem pruned_exploration_finishes
    (program : Program)
    (capacity : Nat)
    (policy : OutputPolicy)
    (halts : ∃ bound, program.HaltsWithin capacity bound) :
    ∃ steps live terminal, ∀ (config : Config) (watchdog : Watchdog)
        (names : Names),
      config.tapeCapacity = capacity ->
      config.outputPolicy = policy ->
      config.pruneInfeasible = true ->
      steps ≤ config.maximumTotalSteps ->
      live ≤ config.maximumLiveStates ->
      terminal ≤ config.maximumTerminalStates ->
      (∀ question, watchdog.shouldStop question = false) ->
        (Engine.create program config watchdog names).execute.1 = none ∧
          (Engine.create program config watchdog names).execute.2.pending =
            [] := by
  obtain ⟨bound, halts⟩ := halts
  let limit := (State.initial capacity).weight bound
  refine ⟨limit + 1, limit, limit + 1, ?_⟩
  rintro config watchdog names rfl rfl prunes stepsEnough liveEnough
    terminalEnough neverStops
  have ended := Engine.ended_execute program config watchdog names
  have reached : Engine.Reached program config watchdog
      (Engine.create program config watchdog names).execute.2 :=
    .executed (.created _)
  have cost_le := reached.cost_survey_le halts prunes
  have finishes :
      (Engine.create program config watchdog names).execute.1 = none := by
    generalize
      (Engine.create program config watchdog names).execute = result at *
    obtain ⟨outcome, engine⟩ := result
    obtain ⟨steps_le, terminal_le, live_le⟩ := engine.survey_cost bound
    dsimp only at cost_le
    cases outcome with
    | none => rfl
    | some reason =>
        have spent := (ended.eq_stepLimit neverStops (fun _ => by omega)
          (by omega)).2
        omega
  exact ⟨finishes, Engine.pending_of_complete finishes⟩

/-- The byte that was read is tested by two loops in a row.  Without pruning, the
side on which the second test disagrees with the first is followed forever. -/
def testedTwice : Program :=
  ⟨#[.read, .loopEnter, .loopEnter, .moveRight, .loopExit, .loopExit], none⟩

theorem haltsWithin_testedTwice : testedTwice.HaltsWithin 2 6 := by
  intro input
  let machine (pointer : Nat) (stack : List Nat) : Machine :=
    ⟨pointer, 0, stack, ⟨.fixed 2, #[input 0, 0]⟩, 1, #[]⟩
  have read : (Machine.initial (.fixed 2)).after? testedTwice input 1 =
      some (machine 1 []) := rfl
  by_cases zero : input 0 = 0
  · rw [Machine.run_of_after? read 5]
    unfold machine
    rw [zero]
    rfl
  · have enteredOnce : (Machine.initial (.fixed 2)).after? testedTwice input 2 =
        some (machine 2 [1]) :=
      Machine.after?_succ read rfl (if_neg zero)
    have enteredTwice :
        (Machine.initial (.fixed 2)).after? testedTwice input 3 =
          some (machine 3 [2, 1]) :=
      Machine.after?_succ enteredOnce rfl (if_neg zero)
    rw [Machine.run_of_after? enteredTwice 3]
    rfl

/-- Programs that halt within a bound exist. -/
theorem pruned_exploration_finishes_testedTwice :
    testedTwice.HaltsWithin 2 6 ∧
      ∃ steps live terminal, ∀ (config : Config) (watchdog : Watchdog)
          (names : Names),
        config.tapeCapacity = 2 ->
        config.outputPolicy = .recordSymbolic ->
        config.pruneInfeasible = true ->
        steps ≤ config.maximumTotalSteps ->
        live ≤ config.maximumLiveStates ->
        terminal ≤ config.maximumTerminalStates ->
        (∀ question, watchdog.shouldStop question = false) ->
          (Engine.create testedTwice config watchdog names).execute.1 = none ∧
            (Engine.create testedTwice config watchdog
              names).execute.2.pending = [] :=
  ⟨haltsWithin_testedTwice,
    pruned_exploration_finishes testedTwice 2 _ ⟨6, haltsWithin_testedTwice⟩⟩

end SymbolicTape
