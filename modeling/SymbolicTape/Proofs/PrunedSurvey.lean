import SymbolicTape.Proofs.Shape
import SymbolicTape.Proofs.Survey

/-!
# Surveys with and without pruning

On the states that an exploration can meet, the check for impossible paths is
exact.  Every step of a survey without pruning is therefore matched by a step
with pruning if the state is possible, and by no step at all if it is not, and
the one survey always knows the possible states of the other.

A survey with pruning has come across possible states only, and it never loses
both sides of a fork, because one of them is possible.
-/

namespace SymbolicTape

namespace State

/-- Some input satisfies the constraint of the state. -/
def Possible (state : State) : Prop := state.constraint.Satisfiable

noncomputable instance (state : State) : Decidable state.Possible :=
  Classical.propDecidable _

/-- A program can be started on any input. -/
theorem possible_initial (capacity : Nat) : (State.initial capacity).Possible :=
  ⟨fun _ => 0, rfl⟩

theorem possible_congr
    {state next : State}
    (constraint_eq : next.constraint = state.constraint) :
    next.Possible ↔ state.Possible := by
  unfold Possible
  rw [constraint_eq]

/-- Only a possible state has a possible side. -/
theorem Possible.of_side
    {state side : State}
    {clause : Predicate}
    (possible : side.Possible)
    (constraint_eq : side.constraint = state.constraint.and clause) :
    state.Possible := by
  obtain ⟨assignment, satisfied⟩ := possible
  rw [constraint_eq, Constraint.holds_and, Bool.and_eq_true] at satisfied
  exact ⟨assignment, satisfied.1⟩

/-- One of the two sides of a possible state is possible. -/
theorem Possible.side
    {state zero nonZero : State}
    {whenZero : Predicate}
    (possible : state.Possible)
    (zero_eq : zero.constraint = state.constraint.and whenZero)
    (nonZero_eq :
      nonZero.constraint = state.constraint.and whenZero.negate) :
    zero.Possible ∨ nonZero.Possible := by
  obtain ⟨assignment, satisfied⟩ := possible
  cases isZero : whenZero.holds assignment with
  | true =>
      left
      refine ⟨assignment, ?_⟩
      rw [zero_eq, Constraint.holds_and, satisfied, isZero]
      rfl
  | false =>
      right
      refine ⟨assignment, ?_⟩
      rw [nonZero_eq, Constraint.holds_and, Predicate.holds_negate, satisfied,
        isZero]
      rfl

/-- Exactly the impossible states are dropped. -/
theorem WellShaped.isDropped_iff
    {state : State}
    (shaped : state.WellShaped) :
    state.isDropped true = true ↔ ¬state.Possible := by
  unfold Possible
  rw [← shaped.infeasible_iff]
  unfold isDropped Feasibility.isInfeasible
  cases state.constraint.feasibility <;> simp

end State

/-! ## Surveys with and without pruning -/

namespace Survey

/-- A property of all states that a survey has come across. -/
structure Every (property : State -> Prop) (survey : Survey) : Prop where
  pending : ∀ state ∈ survey.pending, property state
  completed : ∀ state ∈ survey.completed, property state
  faulted : ∀ entry ∈ survey.faulted, property entry.1

theorem Every.add
    {property : State -> Prop}
    {first second : Survey}
    (inFirst : first.Every property)
    (inSecond : second.Every property) :
    (first + second).Every property := by
  refine ⟨?_, ?_, ?_⟩
  · intro state member
    rcases Multiset.mem_add.mp member with member | member
    · exact inFirst.pending state member
    · exact inSecond.pending state member
  · intro state member
    rcases Multiset.mem_add.mp member with member | member
    · exact inFirst.completed state member
    · exact inSecond.completed state member
  · intro entry member
    rcases Multiset.mem_add.mp member with member | member
    · exact inFirst.faulted entry member
    · exact inSecond.faulted entry member

theorem every_of_waiting_add
    {property : State -> Prop}
    {state : State}
    {rest : Survey}
    (every : (waiting state + rest).Every property) :
    property state ∧ rest.Every property := by
  rw [waiting_add] at every
  refine ⟨every.pending state (Multiset.mem_cons_self _ _), ?_,
    every.completed, every.faulted⟩
  intro other member
  exact every.pending other (Multiset.mem_cons_of_mem member)

theorem every_waiting
    {property : State -> Prop}
    {state : State}
    (holds : property state) :
    (waiting state).Every property := by
  refine ⟨?_, ?_, ?_⟩
  · simpa [waiting] using holds
  · simp [waiting]
  · simp [waiting]

/-- A property that an instruction keeps holds of what comes out of it. -/
theorem every_survey
    {program : Program}
    {policy : OutputPolicy}
    {property : State -> Prop}
    {state : State}
    (prune : Bool)
    (holds : property state)
    (counted : property state.countStep)
    (kept : ∀ {effect}, state.effect? program policy = some effect ->
      effect.All property) :
    (state.survey program policy prune).Every property := by
  cases effect_eq : state.effect? program policy with
  | none =>
      rw [State.survey_of_isDone _ (State.effect?_eq_none_iff.mp effect_eq)]
      exact ⟨by simp, by simpa using holds, by simp⟩
  | some effect =>
      have all := kept effect_eq
      rw [State.survey_of_effect? _ effect_eq]
      cases State.extends_of_effect? effect_eq with
      | next constraint_eq steps_eq =>
          exact ⟨by simpa [Effect.survey, Effect.All] using all,
            by simp [Effect.survey], by simp [Effect.survey]⟩
      | split whenZero zero_eq nonZero_eq zeroSteps_eq nonZeroSteps_eq =>
          refine ⟨?_, by simp [Effect.survey], by simp [Effect.survey]⟩
          intro side member
          have isSide := List.mem_of_mem_filter (Multiset.mem_coe.mp member)
          rcases List.mem_cons.mp isSide with rfl | isSide
          · exact all.1
          · rw [List.mem_singleton.mp isSide]
            exact all.2
      | fault reason =>
          exact ⟨by simp [Effect.survey], by simp [Effect.survey],
            by simpa [Effect.survey] using counted⟩

/-- A survey has come across the possible ones of the states that another one
has come across. -/
structure Restricts (full pruned : Survey) : Prop where
  /-- The states that are still to be run. -/
  pending : pruned.pending = full.pending.filter State.Possible
  /-- The states that reached the end of the program. -/
  completed : pruned.completed = full.completed.filter State.Possible
  /-- The states that faulted. -/
  faulted :
    pruned.faulted = full.faulted.filter fun entry => entry.1.Possible

theorem restricts_zero
    {full : Survey}
    (impossible : full.Every fun state => ¬state.Possible) :
    Restricts full 0 :=
  ⟨(Multiset.filter_eq_nil.mpr impossible.pending).symm,
    (Multiset.filter_eq_nil.mpr impossible.completed).symm,
    (Multiset.filter_eq_nil.mpr impossible.faulted).symm⟩

theorem restricts_self
    {survey : Survey}
    (possible : survey.Every State.Possible) :
    Restricts survey survey :=
  ⟨(Multiset.filter_eq_self.mpr possible.pending).symm,
    (Multiset.filter_eq_self.mpr possible.completed).symm,
    (Multiset.filter_eq_self.mpr possible.faulted).symm⟩

theorem Restricts.every_possible
    {full pruned : Survey}
    (restricts : Restricts full pruned) :
    pruned.Every State.Possible := by
  refine ⟨?_, ?_, ?_⟩
  · rw [restricts.pending]
    exact fun _ member => (Multiset.mem_filter.mp member).2
  · rw [restricts.completed]
    exact fun _ member => (Multiset.mem_filter.mp member).2
  · rw [restricts.faulted]
    exact fun _ member => (Multiset.mem_filter.mp member).2

/-- The parts of two surveys can be compared one by one. -/
theorem Restricts.add
    {full pruned otherFull otherPruned : Survey}
    (restricts : Restricts full pruned)
    (otherRestricts : Restricts otherFull otherPruned) :
    Restricts (full + otherFull) (pruned + otherPruned) := by
  refine ⟨?_, ?_, ?_⟩
  · refine Eq.trans ?_ (Multiset.filter_add _ _ _).symm
    exact congrArg₂ (· + ·) restricts.pending otherRestricts.pending
  · refine Eq.trans ?_ (Multiset.filter_add _ _ _).symm
    exact congrArg₂ (· + ·) restricts.completed otherRestricts.completed
  · refine Eq.trans ?_ (Multiset.filter_add _ _ _).symm
    exact congrArg₂ (· + ·) restricts.faulted otherRestricts.faulted

section Steps

variable {program : Program} {policy : OutputPolicy} {state : State}

/-- Nothing possible comes out of an impossible state. -/
theorem restricts_survey_of_not_possible (impossible : ¬state.Possible) :
    Restricts (state.survey program policy false) 0 := by
  refine restricts_zero (every_survey false impossible impossible ?_)
  intro effect effect_eq
  cases State.extends_of_effect? effect_eq with
  | next constraint_eq steps_eq =>
      exact mt (State.possible_congr constraint_eq).mp impossible
  | split whenZero zero_eq nonZero_eq zeroSteps_eq nonZeroSteps_eq =>
      exact ⟨fun possible => impossible (possible.of_side zero_eq),
        fun possible => impossible (possible.of_side nonZero_eq)⟩
  | fault reason => trivial

/-- What comes out of a possible state with pruning are the possible ones of
the states that come out of it without. -/
theorem restricts_survey_of_possible
    (shaped : state.WellShaped)
    (possible : state.Possible) :
    Restricts
      (state.survey program policy false)
      (state.survey program policy true) := by
  cases effect_eq : state.effect? program policy with
  | none =>
      have isDone := State.effect?_eq_none_iff.mp effect_eq
      rw [State.survey_of_isDone _ isDone, State.survey_of_isDone _ isDone]
      exact restricts_self ⟨by simp, by simpa using possible, by simp⟩
  | some effect =>
      have sidesShaped := shaped.effect effect_eq
      rw [State.survey_of_effect? _ effect_eq,
        State.survey_of_effect? _ effect_eq]
      cases State.extends_of_effect? effect_eq with
      | next constraint_eq steps_eq =>
          have nextPossible := (State.possible_congr constraint_eq).mpr possible
          exact restricts_self ⟨by simpa [Effect.survey] using nextPossible,
            by simp [Effect.survey], by simp [Effect.survey]⟩
      | @split zero nonZero whenZero zero_eq nonZero_eq _ _ =>
          refine ⟨?_, rfl, rfl⟩
          refine congrArg Multiset.ofList (List.filter_congr ?_)
          intro side isSide
          have sideShaped : side.WellShaped := by
            rcases List.mem_cons.mp isSide with rfl | isSide
            · exact sidesShaped.1
            · rw [List.mem_singleton.mp isSide]
              exact sidesShaped.2
          have exact_iff := sideShaped.isDropped_iff
          cases dropped : side.isDropped true with
          | false => simpa [dropped] using exact_iff
          | true => simpa [dropped] using exact_iff
      | fault reason =>
          have counted : state.countStep.Possible := possible
          exact restricts_self ⟨by simp [Effect.survey],
            by simp [Effect.survey], by simpa [Effect.survey] using counted⟩

open Relation in
/-- A step without pruning is matched by a step with pruning, or by none if
the state is impossible. -/
theorem Restricts.step
    {full after pruned : Survey}
    (restricts : Restricts full pruned)
    (shaped : full.Every State.WellShaped)
    (step : Step program policy false full after) :
    ∃ prunedAfter,
      ReflTransGen (Step program policy true) pruned prunedAfter ∧
        Restricts after prunedAfter := by
  cases step with
  | @run rest state taken =>
      subst taken
      obtain ⟨stateShaped, -⟩ := every_of_waiting_add shaped
      rw [waiting_add] at restricts
      have pending_eq := restricts.pending
      dsimp only at pending_eq
      by_cases possible : state.Possible
      · rw [Multiset.filter_cons_of_pos _ possible] at pending_eq
        let prunedRest : Survey :=
          { pruned with pending := rest.pending.filter State.Possible }
        have pruned_eq : pruned = waiting state + prunedRest := by
          rw [waiting_add, ← pending_eq]
        have restRestricts : Restricts rest prunedRest :=
          ⟨rfl, restricts.completed, restricts.faulted⟩
        exact ⟨_, .single (.run pruned_eq),
          (restricts_survey_of_possible stateShaped possible).add
            restRestricts⟩
      · rw [Multiset.filter_cons_of_neg _ possible] at pending_eq
        have restRestricts : Restricts rest pruned :=
          ⟨pending_eq, restricts.completed, restricts.faulted⟩
        have added := (@restricts_survey_of_not_possible program policy state
          possible).add restRestricts
        rw [zero_add] at added
        exact ⟨pruned, .refl, added⟩

/-- Every step keeps the shape of the states that a survey has come across. -/
theorem Every.wellShaped_step
    {prune : Bool}
    {before after : Survey}
    (shaped : before.Every State.WellShaped)
    (step : Step program policy prune before after) :
    after.Every State.WellShaped := by
  cases step with
  | @run rest state taken =>
      obtain ⟨stateShaped, others⟩ := every_of_waiting_add (taken ▸ shaped)
      have outcome : (state.survey program policy prune).Every
          State.WellShaped :=
        every_survey prune stateShaped (stateShaped.move _ _ _ _)
          fun effect_eq => stateShaped.effect effect_eq
      exact outcome.add others

open Relation in
/-- A whole exploration without pruning is matched by one with pruning. -/
theorem restricts_of_steps
    {capacity : Nat}
    {full : Survey}
    (steps : ReflTransGen (Step program policy false)
      (waiting (State.initial capacity)) full) :
    ∃ pruned,
      ReflTransGen (Step program policy true)
          (waiting (State.initial capacity)) pruned ∧
        Restricts full pruned := by
  -- The induction carries the shape along, on which the matching relies.
  suffices matched : full.Every State.WellShaped ∧ ∃ pruned,
      ReflTransGen (Step program policy true)
          (waiting (State.initial capacity)) pruned ∧
        Restricts full pruned from matched.2
  induction steps with
  | refl =>
      exact ⟨every_waiting (State.wellShaped_initial capacity), _, .refl,
        restricts_self (every_waiting (State.possible_initial capacity))⟩
  | tail earlier last inductionHypothesis =>
      obtain ⟨shaped, pruned, prunedSteps, restricts⟩ := inductionHypothesis
      obtain ⟨prunedAfter, further, restrictsAfter⟩ :=
        restricts.step shaped last
      exact ⟨shaped.wellShaped_step last, prunedAfter,
        prunedSteps.trans further, restrictsAfter⟩

/-! ## What pruning keeps -/

/-- All states are possible, and no more sides were dropped than there were
forks. -/
structure WellPruned (survey : Survey) : Prop where
  shaped : survey.Every State.WellShaped
  possible : survey.Every State.Possible
  drops_le : survey.drops ≤ survey.forks

theorem wellPruned_waiting
    (shaped : state.WellShaped)
    (possible : state.Possible) :
    (waiting state).WellPruned :=
  ⟨every_waiting shaped, every_waiting possible, Nat.le_refl 0⟩

/-- A possible state does not lose both its sides. -/
theorem drops_survey_le
    (shaped : state.WellShaped)
    (possible : state.Possible) :
    (state.survey program policy true).drops ≤
      (state.survey program policy true).forks := by
  cases effect_eq : state.effect? program policy with
  | none =>
      rw [State.survey_of_isDone _ (State.effect?_eq_none_iff.mp effect_eq)]
  | some effect =>
      have sidesShaped := shaped.effect effect_eq
      rw [State.survey_of_effect? _ effect_eq]
      cases State.extends_of_effect? effect_eq with
      | next constraint_eq steps_eq => exact Nat.le_refl 0
      | @split zero nonZero whenZero zero_eq nonZero_eq _ _ =>
          have oneKept : zero.isDropped true = false ∨
              nonZero.isDropped true = false := by
            have onePossible := possible.side zero_eq nonZero_eq
            rw [← Bool.not_eq_true, ← Bool.not_eq_true,
              sidesShaped.1.isDropped_iff, sidesShaped.2.isDropped_iff,
              not_not, not_not]
            exact onePossible
          unfold Effect.survey
          rcases oneKept with kept | kept
          · cases other : nonZero.isDropped true <;> simp [kept, other]
          · cases other : zero.isDropped true <;> simp [kept, other]
      | fault reason => exact Nat.le_refl 0

/-- A step with pruning keeps it so. -/
theorem WellPruned.step
    {before after : Survey}
    (pruned : before.WellPruned)
    (step : Step program policy true before after) :
    after.WellPruned := by
  cases step with
  | @run rest state taken =>
      obtain ⟨stateShaped, -⟩ := every_of_waiting_add (taken ▸ pruned.shaped)
      obtain ⟨statePossible, othersPossible⟩ :=
        every_of_waiting_add (taken ▸ pruned.possible)
      have outcomePossible :=
        (@restricts_survey_of_possible program policy state stateShaped
          statePossible).every_possible
      refine ⟨pruned.shaped.wellShaped_step (.run taken),
        outcomePossible.add othersPossible, ?_⟩
      have others_le := pruned.drops_le
      rw [taken, waiting_add] at others_le
      exact Nat.add_le_add (drops_survey_le stateShaped statePossible) others_le

open Relation in
theorem WellPruned.steps
    {before after : Survey}
    (pruned : before.WellPruned)
    (steps : ReflTransGen (Step program policy true) before after) :
    after.WellPruned := by
  induction steps with
  | refl => exact pruned
  | tail earlier last inductionHypothesis =>
      exact inductionHypothesis.step last

end Steps
end Survey

end SymbolicTape
