import SymbolicTape.Proofs.Engine
import SymbolicTape.Proofs.Feasibility

/-!
# The paths of an exploration partition the input

Every assignment of bytes to the names of the input satisfies the constraint of
exactly one path of the engine, be it completed, faulted or still waiting.  A
run keeps the constraint, the two sides of a fork divide the assignments of the
path between them, and a side that is dropped has none.  The statement holds
before the first call and after every call, whatever stopped it.
-/

namespace SymbolicTape

namespace Path

/-- Whether an assignment satisfies the constraint of a path. -/
def accepts (assignment : Assignment) (path : Path) : Bool :=
  path.state.constraint.holds assignment

/-- Paths of the same constraint accept the same assignments. -/
theorem countP_accepts_congr
    {path other : Path}
    (assignment : Assignment)
    (constraint_eq : path.state.constraint = other.state.constraint) :
    [path].countP (accepts assignment) =
      [other].countP (accepts assignment) := by
  have same : path.accepts assignment = other.accepts assignment := by
    unfold accepts
    rw [constraint_eq]
  cases accepted : other.accepts assignment <;> simp [same, accepted]

/-- Exactly one side of a fork accepts an assignment that the forked path
accepts. -/
theorem countP_accepts_sides
    {path zero nonZero : Path}
    {whenZero : Predicate}
    (assignment : Assignment)
    (zero_eq :
      zero.state.constraint = path.state.constraint.and whenZero)
    (nonZero_eq :
      nonZero.state.constraint = path.state.constraint.and whenZero.negate) :
    [zero, nonZero].countP (accepts assignment) =
      [path].countP (accepts assignment) := by
  have zeroAccepts : zero.accepts assignment =
      (path.accepts assignment && whenZero.holds assignment) := by
    unfold accepts
    rw [zero_eq, Constraint.holds_and]
  have nonZeroAccepts : nonZero.accepts assignment =
      (path.accepts assignment && !whenZero.holds assignment) := by
    unfold accepts
    rw [nonZero_eq, Constraint.holds_and, Predicate.holds_negate]
  cases accepted : path.accepts assignment <;>
    cases isZero : whenZero.holds assignment <;>
    simp [zeroAccepts, nonZeroAccepts, accepted, isZero]

end Path

namespace Engine

/-- A side that is dropped accepts nothing. -/
theorem accepts_eq_false_of_isPruned
    {engine : Engine}
    {path : Path}
    (dropped : engine.isPruned path = true)
    (assignment : Assignment) :
    path.accepts assignment = false := by
  unfold isPruned at dropped
  rw [Bool.and_eq_true] at dropped
  apply Constraint.holds_eq_false_of_infeasible
  cases found : path.state.constraint.feasibility with
  | infeasible => rfl
  | unknown =>
      rw [found] at dropped
      cases dropped.2

/-- Dropping sides loses no assignment. -/
theorem countP_accepts_filter
    (engine : Engine)
    (assignment : Assignment)
    (sides : List Path) :
    (sides.filter fun side => !engine.isPruned side).countP
        (Path.accepts assignment) =
      sides.countP (Path.accepts assignment) := by
  rw [List.countP_filter]
  apply List.countP_congr
  intro side member
  cases dropped : engine.isPruned side with
  | false => simp
  | true => simp [accepts_eq_false_of_isPruned dropped assignment]

/-- What comes out of a slice accepts the assignments that the path accepted
before. -/
theorem countP_accepts_outcomes
    (engine : Engine)
    (assignment : Assignment)
    (path : Path)
    (budget : Nat) :
    (engine.outcomes (engine.runSlice budget path).outcome).countP
        (Path.accepts assignment) =
      [path].countP (Path.accepts assignment) := by
  refine runSlice_cases budget ?_ ?_ ?_ ?_
  · intro count last runs
    exact Path.countP_accepts_congr assignment runs.constraint_eq
  · intro count last runs isDone
    exact Path.countP_accepts_congr assignment runs.constraint_eq
  · intro count last zero nonZero runs effect_eq
    cases State.extends_of_effect? effect_eq with
    | split whenZero zero_eq nonZero_eq zeroSteps_eq nonZeroSteps_eq =>
        refine (countP_accepts_filter engine assignment _).trans ?_
        apply Path.countP_accepts_sides assignment
        · exact zero_eq.trans
            (congrArg (Constraint.and · whenZero) runs.constraint_eq)
        · exact nonZero_eq.trans
            (congrArg (Constraint.and · whenZero.negate) runs.constraint_eq)
  · intro count last reason runs effect_eq
    exact Path.countP_accepts_congr assignment runs.constraint_eq

/-- An assignment is accepted by one of all paths, after any number of calls of
the engine. -/
theorem Reached.countP_accepts_paths
    {program : Program}
    {config : Config}
    {watchdog : Watchdog}
    {engine : Engine}
    (reached : Reached program config watchdog engine)
    (assignment : Assignment) :
    engine.paths.countP (Path.accepts assignment) = 1 := by
  refine reached.invariant
    (fun engine => engine.paths.countP (Path.accepts assignment) = 1)
    ?_ ?_ ?_
  · intro names
    rfl
  · intro before after holds rests
    unfold paths at holds ⊢
    rwa [rests.completed, rests.faulted, rests.pending]
  · intro before path rest after budget _ _ holds taken filed
    rw [(perm_paths_of_taken taken).countP_eq, List.countP_cons,
      Nat.add_comm] at holds
    rw [filed.perm_paths.countP_eq, List.countP_append,
      countP_accepts_outcomes]
    simpa using holds

/-- Every assignment satisfies the constraint of exactly one path, after any
number of calls of the engine, whatever ended them. -/
theorem exactly_one_path_accepts
    {program : Program}
    {config : Config}
    {watchdog : Watchdog}
    {engine : Engine}
    (reached : Reached program config watchdog engine)
    (assignment : Assignment) :
    engine.completed.toList.countP (Path.accepts assignment) +
        engine.faulted.toList.countP (fun faulted =>
          faulted.path.accepts assignment) +
        engine.pending.countP (Path.accepts assignment) = 1 := by
  have one := reached.countP_accepts_paths assignment
  unfold paths at one
  rw [List.countP_append, List.countP_append, List.countP_map] at one
  exact one

/-- A call that stops after its first fork because two paths wait where one
may.  The nonzero side is the one that accepts sevens. -/
theorem exactly_one_path_accepts_cut_short :
    let engine := create
      ⟨#[.read, .loopEnter, .loopExit], none⟩
      { tapeCapacity := 1, maximumLiveStates := 1 }
      .idle
    engine.execute.1 = some (.liveStateLimit 1) ∧
      (engine.execute.2.pending.filter (Path.accepts fun _ => 7)).map
          (fun path => path.state.constraint.clauses) =
        [[.isNonZero (.symbol (inputName 0))]] ∧
      engine.execute.2.completed.toList.countP (Path.accepts fun _ => 7) +
        engine.execute.2.faulted.toList.countP (fun faulted =>
          faulted.path.accepts fun _ => 7) +
        engine.execute.2.pending.countP (Path.accepts fun _ => 7) = 1 := by
  intro engine
  have reached : Reached _ _ _ engine.execute.2 := .executed (.created _)
  have one := exactly_one_path_accepts reached fun _ => 7
  rw [execute_eq_complete, complete_of_truncated rfl] at one ⊢
  exact ⟨rfl, rfl, one⟩

end Engine
end SymbolicTape
