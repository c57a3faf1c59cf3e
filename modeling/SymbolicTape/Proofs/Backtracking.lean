import SymbolicTape.Proofs.BranchOrder

/-!
# Depth first, the worklist is a backtracking frontier

Depth first, the paths that wait are the second sides of forks whose first side
has been taken.  Such a fork is one at which the path that is next has assumed
that a term is zero.  So all waiting paths can be read off the constraint of the
next path: each of them has the clauses of the next path up to such a fork, and
there the opposite assumption.  On the stack they are in the order of the forks.

There is hence at most one path for each of these assumptions, and exactly one
if no path is dropped.  This is why few paths wait as long as forks are not deep.
-/

namespace SymbolicTape

namespace Predicate

/-- Whether the condition is that a term is zero. -/
def assumesZero : Predicate -> Bool
  | .isZero _ => true
  | .isNonZero _ => false

@[simp] theorem assumesZero_isZero (term : Term) :
    (isZero term).assumesZero = true := rfl

@[simp] theorem assumesZero_isNonZero (term : Term) :
    (isNonZero term).assumesZero = false := rfl

end Predicate

/-- A path has the first of some clauses, up to a position where they have a term
equal to zero, and then that this term is not zero. -/
def Path.BranchesOff
    (clauses : List Predicate)
    (position : Nat)
    (path : Path) : Prop :=
  ∃ term, clauses[position]? = some (.isZero term) ∧
    path.state.constraint.clauses =
      clauses.take position ++ [.isNonZero term]

theorem Path.BranchesOff.append
    {clauses : List Predicate}
    {position : Nat}
    {path : Path}
    (branches : path.BranchesOff clauses position)
    (added : List Predicate) :
    path.BranchesOff (clauses ++ added) position := by
  obtain ⟨term, here, clauses_eq⟩ := branches
  obtain ⟨inside, -⟩ := List.getElem?_eq_some_iff.mp here
  refine ⟨term, ?_, ?_⟩
  · rw [List.getElem?_append_left inside, here]
  · rw [List.take_append_of_le_length inside.le, clauses_eq]

/-! ## The paths below the next one -/

/-- What waits on a stack below a path with the given clauses, newest first.  For
every assumption that a term is zero there is the other side of the fork, unless
it was dropped. -/
inductive Backtracks (prune : Bool) : List Predicate -> List Path -> Prop
  | start : Backtracks prune [] []
  | second
      {term : Term}
      {older : List Predicate}
      {waiting : List Path}
      (below : Backtracks prune older waiting) :
      Backtracks prune (.isNonZero term :: older) waiting
  | first
      {term : Term}
      {older : List Predicate}
      {waiting : List Path}
      {other : Path}
      (other_eq : other.state.constraint.newestFirst =
        .isNonZero term :: older)
      (below : Backtracks prune older waiting) :
      Backtracks prune (.isZero term :: older) (other :: waiting)
  | only
      {term : Term}
      {older : List Predicate}
      {waiting : List Path}
      (prunes : prune = true)
      (below : Backtracks prune older waiting) :
      Backtracks prune (.isZero term :: older) waiting

section Backtracks

variable {prune : Bool} {newestFirst : List Predicate} {waiting : List Path}

/-- When a path ends, the one below it takes its place. -/
theorem Backtracks.next
    {top : Path}
    (backtracks : Backtracks prune newestFirst (top :: waiting)) :
    Backtracks prune top.state.constraint.newestFirst waiting := by
  generalize stack_eq : top :: waiting = stack at backtracks
  induction backtracks with
  | start => cases stack_eq
  | second below inductionHypothesis => exact inductionHypothesis stack_eq
  | only prunes below inductionHypothesis => exact inductionHypothesis stack_eq
  | first other_eq below inductionHypothesis =>
      cases stack_eq
      rw [other_eq]
      exact .second below

/-- The waiting paths branch off at positions that decrease from the top of the
stack to its bottom. -/
theorem Backtracks.exists_positions
    (backtracks : Backtracks prune newestFirst waiting) :
    ∃ positions : List Nat,
      positions.Pairwise (· > ·) ∧
        (∀ position ∈ positions, position < newestFirst.length) ∧
        List.Forall₂
          (fun position path => path.BranchesOff newestFirst.reverse position)
          positions waiting := by
  -- A further clause leaves the positions as they are.
  have further
      {clause : Predicate}
      {older : List Predicate}
      {waiting : List Path}
      {positions : List Nat}
      (branches : List.Forall₂
        (fun position path => path.BranchesOff older.reverse position)
        positions waiting) :
      List.Forall₂
        (fun position path => path.BranchesOff (clause :: older).reverse position)
        positions waiting := by
    rw [List.reverse_cons]
    exact branches.imp fun position path branch => branch.append [clause]
  induction backtracks with
  | start => exact ⟨[], .nil, List.forall_mem_nil _, .nil⟩
  | second below inductionHypothesis | only _ below inductionHypothesis =>
      obtain ⟨positions, decreasing, bounded, branches⟩ := inductionHypothesis
      exact ⟨positions, decreasing, fun position member =>
        Nat.lt_succ_of_lt (bounded position member), further branches⟩
  | @first term older waiting other other_eq below inductionHypothesis =>
      obtain ⟨positions, decreasing, bounded, branches⟩ := inductionHypothesis
      refine ⟨older.length :: positions, ?_, ?_, .cons ?_ (further branches)⟩
      · exact List.pairwise_cons.mpr ⟨bounded, decreasing⟩
      · refine List.forall_mem_cons.mpr ⟨Nat.lt_succ_self _, ?_⟩
        intro position member
        exact Nat.lt_succ_of_lt (bounded position member)
      · refine ⟨term, ?_, ?_⟩
        · simp
        · unfold Constraint.clauses
          rw [other_eq]
          simp

/-- No more paths wait than there are assumptions that a term is zero. -/
theorem Backtracks.length_le
    (backtracks : Backtracks prune newestFirst waiting) :
    waiting.length ≤ newestFirst.countP Predicate.assumesZero := by
  induction backtracks with
  | start => exact le_rfl
  | second below inductionHypothesis =>
      rwa [List.countP_cons_of_neg (by simp)]
  | first other_eq below inductionHypothesis =>
      rw [List.countP_cons_of_pos rfl, List.length_cons]
      exact Nat.succ_le_succ inductionHypothesis
  | only prunes below inductionHypothesis =>
      rw [List.countP_cons_of_pos rfl]
      exact inductionHypothesis.trans (Nat.le_succ _)

/-- If nothing is dropped, a path waits for each of these assumptions. -/
theorem Backtracks.length_eq
    (backtracks : Backtracks false newestFirst waiting) :
    waiting.length = newestFirst.countP Predicate.assumesZero := by
  induction backtracks with
  | start => rfl
  | second below inductionHypothesis =>
      rwa [List.countP_cons_of_neg (by simp)]
  | first other_eq below inductionHypothesis =>
      rw [List.countP_cons_of_pos rfl, List.length_cons, inductionHypothesis]
  | only prunes below inductionHypothesis => cases prunes

end Backtracks

/-! ## The frontier along an exploration -/

namespace Progress

/-- The stack below the next path is what its clauses say. -/
def IsFrontier (prune : Bool) (progress : Progress) : Prop :=
  ∀ top waiting, progress.stack = top :: waiting ->
    Backtracks prune top.state.constraint.newestFirst waiting

/-- One slice of the next path keeps the frontier. -/
theorem IsFrontier.file
    {prune : Bool}
    {progress : Progress}
    {path : Path}
    {rest : List Path}
    {slice : Slice Path}
    (frontier : progress.IsFrontier prune)
    (stack_eq : progress.stack = path :: rest)
    (leads : path.LeadsTo slice.outcome) :
    (progress.file prune rest slice).IsFrontier prune := by
  have below := frontier path rest stack_eq
  obtain ⟨executed, outcome⟩ := slice
  intro top waiting
  cases leads with
  | advanced constraint_eq =>
      rintro ⟨⟩
      rwa [constraint_eq]
  | done constraint_eq | faulted constraint_eq =>
      rintro rfl
      exact below.next
  | @forked location zero nonZero term zero_eq nonZero_eq =>
      have zeroClauses_eq : zero.state.constraint.newestFirst =
          .isZero term :: path.state.constraint.newestFirst := by
        rw [zero_eq]
        rfl
      have nonZeroClauses_eq : nonZero.state.constraint.newestFirst =
          .isNonZero term :: path.state.constraint.newestFirst := by
        rw [nonZero_eq]
        rfl
      unfold Progress.file
      dsimp only
      cases zeroDropped : zero.state.isDropped prune with
      | false =>
          cases nonZeroDropped : nonZero.state.isDropped prune with
          | false =>
              simp only [List.filter, zeroDropped, nonZeroDropped]
              rintro ⟨⟩
              rw [zeroClauses_eq]
              exact .first nonZeroClauses_eq below
          | true =>
              have prunes : prune = true :=
                (Bool.and_eq_true_iff.mp nonZeroDropped).1
              simp only [List.filter, zeroDropped, nonZeroDropped]
              rintro ⟨⟩
              rw [zeroClauses_eq]
              exact .only prunes below
      | true =>
          cases nonZeroDropped : nonZero.state.isDropped prune with
          | false =>
              simp only [List.filter, zeroDropped, nonZeroDropped]
              rintro ⟨⟩
              rw [nonZeroClauses_eq]
              exact .second below
          | true =>
              simp only [List.filter, zeroDropped, nonZeroDropped]
              rintro rfl
              exact below.next

end Progress

namespace Engine

section Frontier

variable {program : Program} {config : Config} {watchdog : Watchdog}
variable {engine : Engine}

/-- Depth first, the worklist is a frontier at all times. -/
theorem Reached.isFrontier
    (deep : config.strategy = .depthFirst)
    (reached : Reached program config watchdog engine) :
    engine.progress.IsFrontier config.pruneInfeasible := by
  refine reached.depthFirst_invariant deep
    (Progress.IsFrontier config.pruneInfeasible) ?_ ?_
  · intro names
    rw [progress_create]
    intro top waiting stack_eq
    obtain ⟨rfl, rfl⟩ := List.cons.inj stack_eq
    exact .start
  · intro progress path rest frontier stack_eq
    exact frontier.file stack_eq (path.leadsTo_step _ _ _ _)

end Frontier

/-- Depth first, the worklist is a backtracking frontier.  Every other path
branches off the next one at a position where the next one has a term equal to
zero, and the positions increase from the bottom of the stack to its top.  So at
most one path waits for each clause of the next one that has a term equal to
zero, besides the next one itself, and exactly one if impossible paths are not
dropped. -/
theorem worklist_is_backtracking_frontier
    {program : Program}
    {config : Config}
    {watchdog : Watchdog}
    {engine : Engine}
    {top : Path}
    {rest : Worklist Path}
    (deep : config.strategy = .depthFirst)
    (reached : Reached program config watchdog engine)
    (taken : engine.worklist.take? = some (top, rest)) :
    let clauses := top.state.constraint.clauses
    engine.pending = rest.toList ++ [top] ∧
      (∃ positions : List Nat, positions.Pairwise (· < ·) ∧
        List.Forall₂
          (fun position path => path.BranchesOff clauses position)
          positions rest.toList) ∧
      engine.pending.length ≤ 1 + clauses.countP Predicate.assumesZero ∧
      (config.pruneInfeasible = false ->
        engine.pending.length =
          1 + clauses.countP Predicate.assumesZero) := by
  intro clauses
  have isDeep : engine.worklist.strategy = .depthFirst := by
    obtain ⟨names, limit, continues⟩ := reached.continues deep
    exact continues.deep
  have stack_eq : engine.progress.stack = top :: rest.toList.reverse :=
    Worklist.reverse_toList_of_take? isDeep taken
  have backtracks := reached.isFrontier deep top rest.toList.reverse stack_eq
  have pending_eq : engine.pending = rest.toList ++ [top] := by
    apply List.reverse_injective
    rw [List.reverse_append]
    exact stack_eq
  have length_eq : engine.pending.length = 1 + rest.toList.reverse.length := by
    simp [pending_eq, Nat.add_comm]
  have count_eq : clauses.countP Predicate.assumesZero =
      top.state.constraint.newestFirst.countP Predicate.assumesZero :=
    List.countP_reverse
  refine ⟨pending_eq, ?_, ?_, ?_⟩
  · obtain ⟨positions, decreasing, -, branches⟩ := backtracks.exists_positions
    refine ⟨positions.reverse, List.pairwise_reverse.mpr decreasing, ?_⟩
    have reversed := List.forall₂_reverse_iff.mpr branches
    rwa [List.reverse_reverse] at reversed
  · rw [length_eq, count_eq]
    exact Nat.add_le_add_left backtracks.length_le 1
  · intro keepsAll
    rw [keepsAll] at backtracks
    rw [length_eq, count_eq, backtracks.length_eq]

/-- Three input bytes, each of which decides whether the head moves. -/
def threeBranches : Program :=
  ⟨#[.read, .loopEnter, .moveRight, .loopExit, .read, .loopEnter, .moveRight,
    .loopExit, .read, .loopEnter, .moveRight, .loopExit], none⟩

/-- The three branches, explored for twelve instructions. -/
def frontierEngine : Engine :=
  create threeBranches { tapeCapacity := 4, maximumTotalSteps := 12 } .idle

/-- Two paths have ended and three wait, of which two branch off the next one,
where it has the first and the third byte equal to zero. -/
theorem worklist_is_backtracking_frontier_threeBranches :
    let engine := frontierEngine.execute.2
    let clauses := fun path : Path => path.state.constraint.clauses
    let zero := fun index => Predicate.isZero (.symbol (inputName index))
    let nonZero := fun index => Predicate.isNonZero (.symbol (inputName index))
    ∃ top rest, engine.worklist.take? = some (top, rest) ∧
      rest.toList.map clauses =
        [[nonZero 0], [zero 0, nonZero 1, nonZero 2]] ∧
      clauses top = [zero 0, nonZero 1, zero 2] ∧
      (∃ positions : List Nat, positions.Pairwise (· < ·) ∧
        List.Forall₂
          (fun position path => path.BranchesOff (clauses top) position)
          positions rest.toList) ∧
      engine.pending.length =
        1 + (clauses top).countP Predicate.assumesZero := by
  intro engine clauses zero nonZero
  have reached : Reached threeBranches _ _ engine := .executed (.created _)
  have pending_eq : engine.pending.map clauses =
      [[nonZero 0], [zero 0, nonZero 1, nonZero 2]]
        ++ [[zero 0, nonZero 1, zero 2]] := by
    unfold engine
    rw [execute_eq_complete]
    iterate 6 rw [complete_of_next rfl]
    rw [complete_of_truncated rfl]
    rfl
  cases taken : engine.worklist.take? with
  | none =>
      have empty : engine.pending = [] :=
        Worklist.toList_of_take?_eq_none taken
      rw [empty] at pending_eq
      cases pending_eq
  | some entry =>
      obtain ⟨top, rest⟩ := entry
      obtain ⟨split, branches, -, length_eq⟩ :=
        worklist_is_backtracking_frontier (by rfl) reached taken
      rw [split, List.map_append] at pending_eq
      obtain ⟨rest_eq, top_eq⟩ := List.append_inj' pending_eq rfl
      exact ⟨top, rest, rfl, rest_eq, (List.cons.inj top_eq).1, branches,
        length_eq rfl⟩

end Engine
end SymbolicTape
