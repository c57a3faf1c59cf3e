import SymbolicTape.Proofs.Engine

/-!
# The fork tree

The paths of an exploration are leaves of one binary tree.  A fork adds a test
to the clauses of one side and the opposite test to those of the other side, and
nothing else adds a clause.  So two paths of the engine have the same clauses up
to the fork at which they parted, and opposite clauses there.

This says more than that the constraints exclude each other.  It compares the
clauses as they are written, so no path is kept twice even where the constraints
cannot be satisfied.
-/

namespace SymbolicTape

namespace Constraint

/-- Two constraints have the same clauses up to a position, and opposite ones at
it. -/
def PartsFrom (constraint other : Constraint) : Prop :=
  ∃ position clause,
    constraint.clauses.take position = other.clauses.take position ∧
      constraint.clauses[position]? = some clause ∧
      other.clauses[position]? = some clause.negate

section PartsFrom

variable {constraint other : Constraint}

theorem PartsFrom.symm (parts : constraint.PartsFrom other) :
    other.PartsFrom constraint := by
  obtain ⟨position, clause, same, here, there⟩ := parts
  refine ⟨position, clause.negate, same.symm, there, ?_⟩
  rwa [Predicate.negate_negate]

/-- Clauses that are added later leave those up to a clause as they are. -/
theorem take_eq_of_extends
    {extended : Constraint}
    {position : Nat}
    {clause : Predicate}
    (extends_other : other.clauses <+: extended.clauses)
    (there : other.clauses[position]? = some clause) :
    extended.clauses.take position = other.clauses.take position ∧
      extended.clauses[position]? = some clause := by
  obtain ⟨added, clauses_eq⟩ := extends_other
  obtain ⟨inside, -⟩ := List.getElem?_eq_some_iff.mp there
  constructor
  · rw [← clauses_eq, List.take_append_of_le_length inside.le]
  · rw [← clauses_eq, List.getElem?_append_left inside, there]

/-- Clauses that are added later do not matter. -/
theorem PartsFrom.extend
    {extended : Constraint}
    (parts : constraint.PartsFrom other)
    (extends_other : other.clauses <+: extended.clauses) :
    constraint.PartsFrom extended := by
  obtain ⟨position, clause, same, here, there⟩ := parts
  obtain ⟨take_eq, stillThere⟩ := take_eq_of_extends extends_other there
  exact ⟨position, clause, same.trans take_eq.symm, here, stillThere⟩

/-- The two sides of a fork part where the fork is. -/
theorem partsFrom_and_negate (constraint : Constraint) (clause : Predicate) :
    (constraint.and clause).PartsFrom (constraint.and clause.negate) := by
  refine ⟨constraint.clauses.length, clause, ?_, ?_, ?_⟩
  · rw [clauses_and, clauses_and, List.take_left, List.take_left]
  · rw [clauses_and, List.getElem?_concat_length]
  · rw [clauses_and, List.getElem?_concat_length]

/-- At the position where two constraints part, one of them has a term that is
zero and the other one that this term is not. -/
theorem PartsFrom.exists_term (parts : constraint.PartsFrom other) :
    ∃ position term,
      constraint.clauses.take position = other.clauses.take position ∧
        ((constraint.clauses[position]? = some (.isZero term) ∧
            other.clauses[position]? = some (.isNonZero term)) ∨
          (constraint.clauses[position]? = some (.isNonZero term) ∧
            other.clauses[position]? = some (.isZero term))) := by
  obtain ⟨position, clause, same, here, there⟩ := parts
  cases clause with
  | isZero term => exact ⟨position, term, same, .inl ⟨here, there⟩⟩
  | isNonZero term => exact ⟨position, term, same, .inr ⟨here, there⟩⟩

/-- Constraints that part do not extend each other. -/
theorem PartsFrom.not_isExtendedBy (parts : constraint.PartsFrom other) :
    constraint.isExtendedBy other = false := by
  obtain ⟨position, clause, same, here, there⟩ := parts
  refine Bool.eq_false_iff.mpr fun extended => ?_
  obtain ⟨added, clauses_eq⟩ := List.isPrefixOf_iff_prefix.mp extended
  obtain ⟨inside, -⟩ := List.getElem?_eq_some_iff.mp here
  rw [← clauses_eq, List.getElem?_append_left inside, here] at there
  cases clause <;> cases there

theorem PartsFrom.ne (parts : constraint.PartsFrom other) :
    constraint ≠ other := by
  rintro rfl
  have extended : constraint.isExtendedBy constraint = true :=
    List.isPrefixOf_iff_prefix.mpr (List.prefix_refl _)
  rw [parts.not_isExtendedBy] at extended
  cases extended

end PartsFrom
end Constraint

namespace Path

/-- What a slice of a path leaves of it in a path that comes out: the executed
instructions are counted, and a fork, and nothing else, adds one clause. -/
structure Continues (path : Path) (slice : Slice Path) (next : Path) :
    Prop where
  steps_eq : next.state.steps = path.state.steps + slice.executed
  extendsClauses :
    path.state.constraint.clauses <+: next.state.constraint.clauses
  length_eq : next.state.constraint.length =
    path.state.constraint.length + slice.outcome.forkCount

/-- A path whose constraint was not changed. -/
theorem continues_of_constraint_eq
    {path next : Path}
    {slice : Slice Path}
    (steps_eq : next.state.steps = path.state.steps + slice.executed)
    (constraint_eq : next.state.constraint = path.state.constraint)
    (noFork : slice.outcome.forkCount = 0) :
    path.Continues slice next := by
  refine ⟨steps_eq, ?_, ?_⟩
  · exact constraint_eq.symm ▸ List.prefix_refl _
  · rw [constraint_eq, noFork, Nat.add_zero]

/-- A side of a fork. -/
theorem continues_of_and
    {path next : Path}
    {slice : Slice Path}
    {clause : Predicate}
    (steps_eq : next.state.steps = path.state.steps + slice.executed)
    (constraint_eq :
      next.state.constraint = path.state.constraint.and clause)
    (fork : slice.outcome.forkCount = 1) :
    path.Continues slice next := by
  refine ⟨steps_eq, ?_, ?_⟩
  · rw [constraint_eq, Constraint.clauses_and]
    exact List.prefix_append _ _
  · rw [constraint_eq, fork]
    rfl

/-- Two paths have parted at a fork. -/
def PartsFrom (path other : Path) : Prop :=
  path.state.constraint.PartsFrom other.state.constraint

theorem PartsFrom.symm
    {path other : Path}
    (parts : path.PartsFrom other) :
    other.PartsFrom path :=
  Constraint.PartsFrom.symm parts

end Path

namespace Engine

/-- What comes out of a slice continues the path that was run, and the two sides
of a fork part. -/
structure Branches (path : Path) (slice : Slice Path) (outcomes : List Path) :
    Prop where
  continues : ∀ next ∈ outcomes, path.Continues slice next
  pairwise : outcomes.Pairwise Path.PartsFrom

theorem Branches.singleton
    {path next : Path}
    {slice : Slice Path}
    (continues : path.Continues slice next) :
    Branches path slice [next] := by
  refine ⟨?_, List.pairwise_singleton _ _⟩
  intro other member
  rwa [List.mem_singleton.mp member]

/-- Every slice branches in this way, also if sides of a fork are dropped. -/
theorem branches_runSlice (engine : Engine) (path : Path) (budget : Nat) :
    Branches path (engine.runSlice budget path)
      (engine.outcomes (engine.runSlice budget path).outcome) := by
  refine runSlice_cases (motive := fun slice =>
    Branches path slice (engine.outcomes slice.outcome)) budget ?_ ?_ ?_ ?_
  · intro count last runs
    exact .singleton (Path.continues_of_constraint_eq runs.steps_eq
      runs.constraint_eq rfl)
  · intro count last runs isDone
    exact .singleton (Path.continues_of_constraint_eq runs.steps_eq
      runs.constraint_eq rfl)
  · intro count last zero nonZero runs effect_eq
    cases State.extends_of_effect? effect_eq with
    | split whenZero zero_eq nonZero_eq zeroSteps_eq nonZeroSteps_eq =>
        have counted : last.countStep.steps = path.state.steps + (count + 1) :=
          congrArg Nat.succ runs.steps_eq
        have constraint_eq : last.countStep.constraint =
            path.state.constraint := runs.constraint_eq
        rw [constraint_eq] at zero_eq nonZero_eq
        constructor
        · intro next member
          have side := List.mem_of_mem_filter member
          rcases List.mem_cons.mp side with rfl | side
          · exact Path.continues_of_and (zeroSteps_eq.trans counted) zero_eq rfl
          · rw [List.mem_singleton.mp side]
            exact Path.continues_of_and (nonZeroSteps_eq.trans counted)
              nonZero_eq rfl
        · refine List.Pairwise.sublist List.filter_sublist
            (List.pairwise_pair.mpr ?_)
          unfold Path.PartsFrom Path.child
          rw [zero_eq, nonZero_eq]
          exact Constraint.partsFrom_and_negate _ whenZero
  · intro count last reason runs effect_eq
    exact .singleton (Path.continues_of_constraint_eq
      (congrArg Nat.succ runs.steps_eq) runs.constraint_eq rfl)

/-- Any two paths have parted at a fork, after any number of calls of the
engine. -/
theorem Reached.pairwise_partsFrom
    {program : Program}
    {config : Config}
    {watchdog : Watchdog}
    {engine : Engine}
    (reached : Reached program config watchdog engine) :
    engine.paths.Pairwise Path.PartsFrom := by
  refine reached.invariant (fun engine =>
    engine.paths.Pairwise Path.PartsFrom) ?_ ?_ ?_
  · intro names
    exact List.pairwise_singleton _ _
  · intro before after holds rests
    unfold paths at holds ⊢
    rwa [rests.completed, rests.faulted, rests.pending]
  · intro before path rest after budget _ _ holds taken filed
    rw [(perm_paths_of_taken taken).pairwise_iff Path.PartsFrom.symm,
      List.pairwise_cons] at holds
    rw [filed.perm_paths.pairwise_iff Path.PartsFrom.symm,
      List.pairwise_append]
    have branches := branches_runSlice before path budget
    refine ⟨branches.pairwise, holds.2, ?_⟩
    intro next member other otherMember
    -- The other path parted from the one that was run, and this stays so.
    have parted : other.PartsFrom path :=
      (holds.1 other otherMember).symm
    exact (Constraint.PartsFrom.extend parted
      (branches.continues next member).extendsClauses).symm

/-- The paths of an exploration are distinct leaves of one binary tree.  Any two
entries among the completed, the faulted and the waiting paths have the same
clauses up to a position, at which one of them has a term that is zero and the
other one that this term is not.  So no constraint is another one or a beginning
of it. -/
theorem paths_are_distinct_leaves
    {program : Program}
    {config : Config}
    {watchdog : Watchdog}
    {engine : Engine}
    (reached : Reached program config watchdog engine) :
    (engine.completed.toList ++ engine.faulted.toList.map FaultedPath.path
        ++ engine.pending).Pairwise fun path other =>
      let clauses := path.state.constraint.clauses
      let others := other.state.constraint.clauses
      (∃ position term,
        clauses.take position = others.take position ∧
          ((clauses[position]? = some (.isZero term) ∧
              others[position]? = some (.isNonZero term)) ∨
            (clauses[position]? = some (.isNonZero term) ∧
              others[position]? = some (.isZero term)))) ∧
        path.state.constraint ≠ other.state.constraint ∧
        path.state.constraint.isExtendedBy other.state.constraint = false ∧
        other.state.constraint.isExtendedBy path.state.constraint = false := by
  refine reached.pairwise_partsFrom.imp ?_
  intro path other parts
  exact ⟨Constraint.PartsFrom.exists_term parts, Constraint.PartsFrom.ne parts,
    Constraint.PartsFrom.not_isExtendedBy parts,
    Constraint.PartsFrom.not_isExtendedBy parts.symm⟩

/-- A loop that tests an input byte for ever. -/
def spinning : Program := ⟨#[.read, .loopEnter, .loopExit], none⟩

/-- The loop, explored for four instructions. -/
def spinningEngine : Engine :=
  create spinning { tapeCapacity := 1, maximumTotalSteps := 4 } .idle

/-- Three tests of one byte lead to four paths, of which two cannot be taken.
Their constraints differ all the same. -/
theorem paths_are_distinct_leaves_spinning :
    let zero := Predicate.isZero (.symbol (inputName 0))
    let nonZero := Predicate.isNonZero (.symbol (inputName 0))
    spinningEngine.execute.1 = some (.stepLimit 4) ∧
      (spinningEngine.execute.2.paths.map fun path =>
          path.state.constraint.clauses) =
        [[zero], [nonZero, zero], [nonZero, nonZero, nonZero],
          [nonZero, nonZero, zero]] ∧
      spinningEngine.execute.2.paths.Pairwise fun path other =>
        path.state.constraint ≠ other.state.constraint := by
  have reached : Reached spinning _ _ spinningEngine.execute.2 :=
    .executed (.created _)
  have distinct := (paths_are_distinct_leaves reached).imp fun parts =>
    parts.2.1
  refine ⟨?_, ?_, distinct⟩
  · rw [execute_eq_complete]
    iterate 5 rw [complete_of_next rfl]
    exact congrArg Prod.fst (complete_of_truncated rfl)
  · rw [execute_eq_complete]
    iterate 5 rw [complete_of_next rfl]
    rw [complete_of_truncated rfl]
    rfl

end Engine
end SymbolicTape
