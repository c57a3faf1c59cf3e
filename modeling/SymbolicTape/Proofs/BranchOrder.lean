import SymbolicTape.Proofs.DepthFirst
import SymbolicTape.Proofs.ForkTree

/-!
# Depth first, paths end in the order of their branches

At a fork the side on which the tested term is zero is taken first.  Depth first
this decides the order of all paths.  Of two paths, the one that ends first, or
that is taken first if both wait, is the one that goes to the zero side at the
fork where they part.

Since slices do not matter depth first, an invariant of such an exploration has
to be proved for one instruction of the next path only.  This is said by
`Engine.Reached.depthFirst_invariant`.
-/

namespace SymbolicTape

/-! ## The sides of a fork -/

/-- A zero test that is left open asks whether a term is zero. -/
theorem Value.exists_term_of_zeroTest
    {value : Value}
    {whenZero : Predicate}
    (tested : value.zeroTest = .undetermined whenZero) :
    ∃ term, whenZero = .isZero term := by
  unfold zeroTest testByte at tested
  split at tested
  · split at tested <;> cases tested
  · cases tested
    exact ⟨_, rfl⟩

/-- A state splits into a first side, on which a term is zero, and a second one,
on which it is not. -/
def Effect.TestsZero (state : State) : Effect -> Prop
  | .split zero nonZero =>
      ∃ term, zero.constraint = state.constraint.and (.isZero term) ∧
        nonZero.constraint = state.constraint.and (.isNonZero term)
  | _ => True

namespace State

theorem testsZero_testAtEnter (program : Program) (state : State) :
    (state.testAtEnter program).TestsZero state := by
  unfold testAtEnter
  split
  · exact trivial
  · split
    · exact trivial
    · split <;> exact trivial
    · rename_i tested
      obtain ⟨term, rfl⟩ := Value.exists_term_of_zeroTest tested
      split
      · exact trivial
      · exact ⟨term, rfl, rfl⟩

theorem testsZero_testAtExit (state : State) :
    state.testAtExit.TestsZero state := by
  unfold testAtExit
  split
  · exact trivial
  · split
    · exact trivial
    · split
      · exact trivial
      · exact trivial
      · rename_i tested
        obtain ⟨term, rfl⟩ := Value.exists_term_of_zeroTest tested
        exact ⟨term, rfl, rfl⟩

/-- Only the loop instructions split a state, and they test for zero. -/
theorem testsZero_execute
    (program : Program)
    (policy : OutputPolicy)
    (opcode : Opcode)
    (state : State) :
    (state.execute program policy opcode).TestsZero state := by
  cases opcode with
  | loopEnter => exact testsZero_testAtEnter program state
  | loopExit => exact testsZero_testAtExit state
  | moveRight | moveLeft | comment => exact trivial
  | increment | decrement =>
      unfold execute changeCell
      dsimp only
      split <;> exact trivial
  | read =>
      unfold execute readInput
      dsimp only
      split <;> exact trivial
  | write =>
      unfold execute writeOutput
      dsimp only
      split
      · exact trivial
      · split <;> exact trivial

end State

namespace Path

/-- What a slice of a path can come to, as far as the constraint goes: a fork
adds a test for zero on its first side and the opposite test on its second side,
and otherwise the constraint stays. -/
inductive LeadsTo (path : Path) : Outcome Path -> Prop
  | advanced
      {next : Path}
      (constraint_eq : next.state.constraint = path.state.constraint) :
      LeadsTo path (.advanced next)
  | done
      {next : Path}
      (constraint_eq : next.state.constraint = path.state.constraint) :
      LeadsTo path (.done next)
  | faulted
      {next : Path}
      {fault : Located Fault}
      (constraint_eq : next.state.constraint = path.state.constraint) :
      LeadsTo path (.faulted next fault)
  | forked
      {location : Nat}
      {zero nonZero : Path}
      (term : Term)
      (zero_eq : zero.state.constraint =
        path.state.constraint.and (.isZero term))
      (nonZero_eq : nonZero.state.constraint =
        path.state.constraint.and (.isNonZero term)) :
      LeadsTo path (.forked location zero nonZero)

theorem leadsTo_step
    (program : Program)
    (policy : OutputPolicy)
    (names : Names)
    (budget : Nat)
    (path : Path) :
    path.LeadsTo (path.step program policy names budget).outcome := by
  have reaches := State.reaches_step program policy budget path.state
  unfold step
  generalize path.state.step program policy budget = slice at reaches
  cases reaches with
  | advanced runs notDone => exact .advanced runs.constraint_eq
  | done runs isDone => exact .done runs.constraint_eq
  | faulted runs effect_eq =>
      cases State.extends_of_effect? effect_eq with
      | fault reason => exact .faulted runs.constraint_eq
  | @forked count last zero nonZero runs effect_eq =>
      obtain ⟨opcode, -, executed_eq⟩ := Option.map_eq_some_iff.mp effect_eq
      have tests := State.testsZero_execute program policy opcode last.countStep
      rw [executed_eq] at tests
      obtain ⟨term, zero_eq, nonZero_eq⟩ := tests
      have constraint_eq : last.countStep.constraint =
          path.state.constraint := runs.constraint_eq
      rw [constraint_eq] at zero_eq nonZero_eq
      exact .forked term zero_eq nonZero_eq

end Path

/-! ## Invariants of depth-first explorations -/

namespace Engine

open Relation

section Invariant

variable {program : Program} {config : Config} {watchdog : Watchdog}
variable {engine : Engine}

/-- Depth first, a number of calls is a sequence of moves within some limit. -/
theorem Reached.continues
    (deep : config.strategy = .depthFirst)
    (reached : Reached program config watchdog engine) :
    ∃ names limit,
      Continues limit (create program config watchdog names) engine := by
  induction reached with
  | created names =>
      exact ⟨names, 0, strategy_create.trans deep, rfl, .refl⟩
  | @executed engine reached inductionHypothesis =>
      obtain ⟨names, limit, earlier⟩ := inductionHypothesis
      have call := continues_execute earlier.deep
      exact ⟨names, _, (earlier.mono (Nat.le_max_left _ _)).trans
        (call.mono (Nat.le_max_right _ _))⟩

/-- An invariant of depth-first explorations: it holds of the new engine, and it
is kept when the next path is run for one instruction. -/
theorem Reached.depthFirst_invariant
    (deep : config.strategy = .depthFirst)
    (property : Progress -> Prop)
    (initially : ∀ names,
      property (create program config watchdog names).progress)
    (moves : ∀ {progress path rest}, property progress ->
      progress.stack = path :: rest ->
        property (progress.file config.pruneInfeasible rest
          (path.step program config.outputPolicy progress.names 1)))
    (reached : Reached program config watchdog engine) :
    property engine.progress := by
  obtain ⟨names, limit, continues⟩ := reached.continues deep
  have made := continues.moves
  rw [rules_create] at made
  generalize engine.progress = progress at made
  induction made with
  | refl => exact initially names
  | tail _ last holds =>
      cases last with
      | move waits within =>
          obtain ⟨path, rest, stack_eq⟩ := List.exists_cons_of_ne_nil waits
          rw [Progress.advance_of_stack_eq stack_eq]
          exact moves holds stack_eq

end Invariant
end Engine

/-! ## The order of branches -/

namespace Constraint

/-- At the first clause in which two constraints differ, the first one has that
a term is zero, and the second one that it is not. -/
def Precedes (constraint other : Constraint) : Prop :=
  ∃ position term,
    constraint.clauses.take position = other.clauses.take position ∧
      constraint.clauses[position]? = some (.isZero term) ∧
      other.clauses[position]? = some (.isNonZero term)

/-- Clauses that are added later do not change the order. -/
theorem Precedes.extend
    {constraint other extended otherExtended : Constraint}
    (precedes : constraint.Precedes other)
    (extends_constraint : constraint.clauses <+: extended.clauses)
    (extends_other : other.clauses <+: otherExtended.clauses) :
    extended.Precedes otherExtended := by
  obtain ⟨position, term, same, here, there⟩ := precedes
  obtain ⟨take_eq, stillHere⟩ := take_eq_of_extends extends_constraint here
  obtain ⟨otherTake_eq, stillThere⟩ := take_eq_of_extends extends_other there
  refine ⟨position, term, ?_, stillHere, stillThere⟩
  rw [take_eq, same, otherTake_eq]

/-- The zero side of a fork precedes the other one. -/
theorem precedes_and (constraint : Constraint) (term : Term) :
    (constraint.and (.isZero term)).Precedes
      (constraint.and (.isNonZero term)) := by
  refine ⟨constraint.clauses.length, term, ?_, ?_, ?_⟩
  · rw [clauses_and, clauses_and, List.take_left, List.take_left]
  · rw [clauses_and, List.getElem?_concat_length]
  · rw [clauses_and, List.getElem?_concat_length]

end Constraint

namespace Path

/-- A path comes before another in the order of branches. -/
def Precedes (path other : Path) : Prop :=
  path.state.constraint.Precedes other.state.constraint

/-- The path that was run is replaced by paths that come out of its slice, in
their order. -/
theorem pairwise_precedes_replace
    {before next rest : List Path}
    {path : Path}
    (ordered : (before ++ path :: rest).Pairwise Precedes)
    (continues : ∀ new ∈ next,
      path.state.constraint.clauses <+: new.state.constraint.clauses)
    (nextOrdered : next.Pairwise Precedes) :
    (before ++ (next ++ rest)).Pairwise Precedes := by
  obtain ⟨beforeOrdered, behind, across⟩ := List.pairwise_append.mp ordered
  obtain ⟨first, restOrdered⟩ := List.pairwise_cons.mp behind
  refine List.pairwise_append.mpr ⟨beforeOrdered,
    List.pairwise_append.mpr ⟨nextOrdered, restOrdered, ?_⟩, ?_⟩
  · intro new isNew other isOther
    exact (first other isOther).extend (continues new isNew)
      (List.prefix_refl _)
  · intro earlier isEarlier later isLater
    rcases List.mem_append.mp isLater with isNew | isOther
    · exact (across earlier isEarlier path List.mem_cons_self).extend
        (List.prefix_refl _) (continues later isNew)
    · exact across earlier isEarlier later (List.mem_cons_of_mem _ isOther)

end Path

namespace Progress

/-- The completed paths and then the waiting ones are in the order of branches,
and so are the faulted paths and then the waiting ones. -/
structure Ordered (progress : Progress) : Prop where
  completed :
    (progress.completed.toList ++ progress.stack).Pairwise Path.Precedes
  faulted :
    (progress.faulted.toList.map FaultedPath.path ++ progress.stack).Pairwise
      Path.Precedes

section Ordered

variable {progress : Progress} {path : Path} {rest : List Path}

/-- The path that was run is replaced by the ones that are kept. -/
theorem Ordered.replace
    (ordered : progress.Ordered)
    (stack_eq : progress.stack = path :: rest)
    (kept : List Path)
    (continues : ∀ new ∈ kept,
      path.state.constraint.clauses <+: new.state.constraint.clauses)
    (keptOrdered : kept.Pairwise Path.Precedes) :
    (progress.completed.toList ++ (kept ++ rest)).Pairwise Path.Precedes ∧
      (progress.faulted.toList.map FaultedPath.path
        ++ (kept ++ rest)).Pairwise Path.Precedes := by
  obtain ⟨completed, faulted⟩ := ordered
  rw [stack_eq] at completed faulted
  exact ⟨Path.pairwise_precedes_replace completed continues keptOrdered,
    Path.pairwise_precedes_replace faulted continues keptOrdered⟩

/-- One slice of the next path keeps the order. -/
theorem Ordered.file
    {prune : Bool}
    {slice : Slice Path}
    (ordered : progress.Ordered)
    (stack_eq : progress.stack = path :: rest)
    (leads : path.LeadsTo slice.outcome) :
    (progress.file prune rest slice).Ordered := by
  obtain ⟨executed, outcome⟩ := slice
  -- A single path that comes out has the clauses of the path that was run.
  have single {next : Path}
      (constraint_eq : next.state.constraint = path.state.constraint) :=
    ordered.replace stack_eq [next]
      (List.forall_mem_singleton.mpr (constraint_eq ▸ List.prefix_refl _))
      (List.pairwise_singleton _ _)
  have without := ordered.replace stack_eq [] (List.forall_mem_nil _)
    List.Pairwise.nil
  cases leads with
  | advanced constraint_eq =>
      obtain ⟨completed, faulted⟩ := single constraint_eq
      exact ⟨completed, faulted⟩
  | @done next constraint_eq =>
      refine ⟨?_, without.2⟩
      have completed := (single constraint_eq).1
      rw [← List.append_assoc] at completed
      simpa [Progress.file] using completed
  | @faulted next fault constraint_eq =>
      refine ⟨without.1, ?_⟩
      have faulted := (single constraint_eq).2
      rw [← List.append_assoc] at faulted
      simpa [Progress.file] using faulted
  | @forked location zero nonZero term zero_eq nonZero_eq =>
      have sides : [zero, nonZero].Pairwise Path.Precedes := by
        refine List.pairwise_pair.mpr ?_
        unfold Path.Precedes
        rw [zero_eq, nonZero_eq]
        exact Constraint.precedes_and _ term
      have continues : ∀ side ∈ [zero, nonZero],
          path.state.constraint.clauses <+: side.state.constraint.clauses := by
        simp [zero_eq, nonZero_eq]
      obtain ⟨completed, faulted⟩ := ordered.replace stack_eq
        ([zero, nonZero].filter fun side => !side.state.isDropped prune)
        (fun side member => continues side (List.mem_of_mem_filter member))
        (sides.filter _)
      exact ⟨completed, faulted⟩

end Ordered
end Progress

namespace Engine

/-- Depth first, paths are kept in the order of their branches at all times. -/
theorem Reached.ordered
    {program : Program}
    {config : Config}
    {watchdog : Watchdog}
    {engine : Engine}
    (deep : config.strategy = .depthFirst)
    (reached : Reached program config watchdog engine) :
    engine.progress.Ordered := by
  refine reached.depthFirst_invariant deep Progress.Ordered ?_ ?_
  · intro names
    rw [progress_create]
    exact ⟨List.pairwise_singleton _ _, List.pairwise_singleton _ _⟩
  · intro progress path rest ordered stack_eq
    exact ordered.file stack_eq (path.leadsTo_step _ _ _ _)

/-- Depth first, paths end in the order of their branches.  This is the order in
which, at the first clause in which two constraints differ, the one goes first
that has a term equal to zero.  After any number of calls the completed paths are
in this order, and so are the faulted paths, and all of them come before all
paths that wait. -/
theorem paths_end_in_branch_order
    {program : Program}
    {config : Config}
    {watchdog : Watchdog}
    {engine : Engine}
    (deep : config.strategy = .depthFirst)
    (reached : Reached program config watchdog engine) :
    let faulted := engine.faulted.toList.map FaultedPath.path
    engine.completed.toList.Pairwise Path.Precedes ∧
      faulted.Pairwise Path.Precedes ∧
      ∀ ended ∈ engine.completed.toList ++ faulted,
        ∀ waiting ∈ engine.pending, ended.Precedes waiting := by
  intro faulted
  obtain ⟨completedFirst, faultedFirst⟩ := reached.ordered deep
  obtain ⟨completedOrdered, -, completedBefore⟩ :=
    List.pairwise_append.mp completedFirst
  obtain ⟨faultedOrdered, -, faultedBefore⟩ :=
    List.pairwise_append.mp faultedFirst
  refine ⟨completedOrdered, faultedOrdered, ?_⟩
  intro ended hasEnded waiting waits
  have onStack : waiting ∈ engine.progress.stack :=
    List.mem_reverse.mpr waits
  rcases List.mem_append.mp hasEnded with completed | hasFaulted
  · exact completedBefore ended completed waiting onStack
  · exact faultedBefore ended hasFaulted waiting onStack

/-- Two input bytes, of which the first decides whether the head moves and the
second whether it leaves the tape. -/
def twoDecisions : Program :=
  ⟨#[.read, .loopEnter, .moveRight, .loopExit, .read, .loopEnter, .moveLeft,
    .moveLeft, .loopExit], none⟩

/-- The two decisions, explored until three paths have ended. -/
def decidedEngine : Engine :=
  create twoDecisions { tapeCapacity := 4, maximumTerminalStates := 3 } .idle

/-- Completed and faulted paths alternate.  Each kind is in the order of
branches, and the path that still waits is the last one. -/
theorem paths_end_in_branch_order_twoDecisions :
    let engine := decidedEngine.execute.2
    let clauses := fun path : Path => path.state.constraint.clauses
    let zero := fun index => Predicate.isZero (.symbol (inputName index))
    let nonZero := fun index => Predicate.isNonZero (.symbol (inputName index))
    engine.completed.toList.map clauses =
        [[zero 0, zero 1], [nonZero 0, zero 1]] ∧
      engine.faulted.toList.map (clauses ·.path) = [[zero 0, nonZero 1]] ∧
      engine.pending.map clauses = [[nonZero 0, nonZero 1]] ∧
      engine.completed.toList.Pairwise Path.Precedes ∧
      ∀ ended ∈ engine.completed.toList
          ++ engine.faulted.toList.map FaultedPath.path,
        ∀ waiting ∈ engine.pending, ended.Precedes waiting := by
  intro engine clauses zero nonZero
  have reached : Reached twoDecisions _ _ engine := .executed (.created _)
  obtain ⟨ordered, -, before⟩ := paths_end_in_branch_order (by rfl) reached
  refine ⟨?_, ?_, ?_, ordered, before⟩ <;>
  · unfold engine
    rw [execute_eq_complete]
    iterate 6 rw [complete_of_next rfl]
    rw [complete_of_truncated rfl]
    rfl

end Engine
end SymbolicTape
