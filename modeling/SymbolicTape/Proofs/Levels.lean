import SymbolicTape.Proofs.DepthFirst
import SymbolicTape.Proofs.ForkTree
import SymbolicTape.Proofs.Moments

/-!
# Breadth first, paths are explored level by level

The level of a path is the number of clauses of its constraint, which is the
number of forks that it has passed.  Breadth first, the worklist is a queue: the
first path is run, and the sides of a fork, which are one level down, go to the
end.  So the paths that wait are on one level or on two that follow each other,
and no path ends on a level below one that still waits.

A path that is cut off goes to the end of the queue as well, and stays on its
level.  Hence all of this is said of calls that cut no path off, which is what
`Engine.Call.IsUncut` asks for.
-/

namespace SymbolicTape

/-! ## Queues -/

namespace Worklist

/-- Breadth first, the next entry is the first of the queue. -/
theorem toList_of_take?
    {worklist rest : Worklist α}
    {entry : α}
    (broad : worklist.strategy = .breadthFirst)
    (taken : worklist.take? = some (entry, rest)) :
    worklist.toList = entry :: rest.toList := by
  unfold take? at taken
  rw [broad] at taken
  exact toList_of_popFront? taken

/-- Breadth first, the sides of a fork are put at the end of the queue. -/
theorem toList_pushSides
    {worklist : Worklist α}
    (broad : worklist.strategy = .breadthFirst)
    (first second : Option α) :
    (worklist.pushSides first second).toList =
      worklist.toList ++ (first.toList ++ second.toList) := by
  cases first with
  | none => cases second <;> simp [pushSides]
  | some first =>
      cases second with
      | none => simp [pushSides]
      | some second => simp [pushSides, pushFork, broad]

end Worklist

/-! ## Levels -/

namespace Path

/-- The number of forks that a path has passed. -/
def level (path : Path) : Nat := path.state.constraint.length

end Path

namespace Engine

/-- Breadth first, what goes on after a slice waits at the end of the queue. -/
theorem pending_afterSlice
    {engine : Engine}
    {path : Path}
    {rest : Worklist Path}
    (broad : rest.strategy = .breadthFirst)
    (slice : Slice Path) :
    (engine.afterSlice path rest slice).pending =
      rest.toList ++ engine.kept slice.outcome := by
  obtain ⟨executed, outcome⟩ := slice
  cases outcome with
  | advanced next => exact rest.toList_push next
  | done | faulted => exact (List.append_nil _).symm
  | forked location zero nonZero =>
      rw [afterSlice_forked]
      unfold pending afterFork
      dsimp only
      rw [Worklist.toList_pushSides broad, toList_ite_isPruned,
        toList_ite_isPruned, ← List.filter_append]
      rfl

/-- A path ends on its own level or goes on one level down. -/
structure Descends (engine : Engine) (path : Path) (outcome : Outcome Path) :
    Prop where
  completed : ∀ next ∈ outcome.completed, next.level = path.level
  faulted : ∀ next ∈ outcome.faultedPaths.map FaultedPath.path,
    next.level = path.level
  kept : ∀ next ∈ engine.kept outcome, next.level = path.level + 1

/-- This is so of every slice that is not cut off. -/
theorem descends_runSlice
    {engine : Engine}
    {path : Path}
    {budget : Nat}
    (whole : (engine.runSlice budget path).outcome.isAdvanced = false) :
    engine.Descends path (engine.runSlice budget path).outcome := by
  have level_eq (next : Path)
      (member : next ∈ engine.outcomes (engine.runSlice budget path).outcome) :
      next.level =
        path.level + (engine.runSlice budget path).outcome.forkCount :=
    ((engine.branches_runSlice path budget).continues next member).length_eq
  generalize (engine.runSlice budget path).outcome = outcome at whole level_eq
  cases outcome with
  | advanced next => cases whole
  | done next =>
      refine ⟨?_, List.forall_mem_nil _, List.forall_mem_nil _⟩
      intro other member
      exact level_eq other member
  | faulted next fault =>
      refine ⟨List.forall_mem_nil _, ?_, List.forall_mem_nil _⟩
      intro other member
      exact level_eq other member
  | forked location zero nonZero =>
      refine ⟨List.forall_mem_nil _, List.forall_mem_nil _, ?_⟩
      intro other member
      exact level_eq other member

/-- Paths on a single level are in any order that is reflexive. -/
theorem pairwise_of_single_level
    {relation : Nat -> Nat -> Prop}
    {levels : List Nat}
    {level : Nat}
    (reflexive : relation level level)
    (levels_eq : ∀ other ∈ levels, other = level) :
    levels.Pairwise relation := by
  refine List.pairwise_of_forall_mem_list ?_
  intro first isFirst second isSecond
  rwa [levels_eq first isFirst, levels_eq second isSecond]

/-- Levels do not decrease if what ends on the level of the first path of the
queue is put behind what has ended, and what goes on one level down is put at the
end of the queue. -/
theorem pairwise_levels_requeue
    {before ended rest next : List Nat}
    {level : Nat}
    (ordered : (before ++ level :: rest).Pairwise (· ≤ ·))
    (close : ∀ other ∈ rest, other ≤ level + 1)
    (ended_eq : ∀ other ∈ ended, other = level)
    (next_eq : ∀ other ∈ next, other = level + 1) :
    ((before ++ ended) ++ (rest ++ next)).Pairwise (· ≤ ·) := by
  obtain ⟨beforeOrdered, queueOrdered, across⟩ := List.pairwise_append.mp ordered
  obtain ⟨first, restOrdered⟩ := List.pairwise_cons.mp queueOrdered
  have beforeFirst (earlier : Nat) (isEarlier : earlier ∈ before ++ ended) :
      earlier ≤ level := by
    rcases List.mem_append.mp isEarlier with old | new
    · exact across earlier old level List.mem_cons_self
    · exact (ended_eq earlier new).le
  refine List.pairwise_append.mpr ⟨?_, ?_, ?_⟩
  · refine List.pairwise_append.mpr ⟨beforeOrdered, ?_, ?_⟩
    · exact pairwise_of_single_level (Nat.le_refl level) ended_eq
    · intro earlier old later new
      rw [ended_eq later new]
      exact beforeFirst earlier (List.mem_append_left _ old)
  · refine List.pairwise_append.mpr ⟨restOrdered, ?_, ?_⟩
    · exact pairwise_of_single_level (Nat.le_refl _) next_eq
    · intro earlier waits later new
      rw [next_eq later new]
      exact close earlier waits
  · intro earlier isEarlier later isLater
    refine (beforeFirst earlier isEarlier).trans ?_
    rcases List.mem_append.mp isLater with waits | new
    · exact first later waits
    · rw [next_eq later new]
      exact Nat.le_succ level

/-- The queue goes by levels. -/
structure ByLevels (engine : Engine) : Prop where
  broad : engine.worklist.strategy = .breadthFirst
  /-- The levels of the completed paths and then of the waiting ones do not
  decrease. -/
  completed :
    (engine.completed.toList.map Path.level
      ++ engine.pending.map Path.level).Pairwise (· ≤ ·)
  /-- Nor do those of the faulted paths and then of the waiting ones. -/
  faulted :
    ((engine.faulted.toList.map FaultedPath.path).map Path.level
      ++ engine.pending.map Path.level).Pairwise (· ≤ ·)
  /-- Of two paths that wait, the later one is at most one level down. -/
  close :
    (engine.pending.map Path.level).Pairwise
      fun first second => second ≤ first + 1

namespace ByLevels

theorem of_sameWork
    {before after : Engine}
    (levels : before.ByLevels)
    (same : after.SameWork before) :
    after.ByLevels := by
  obtain ⟨broad, completed, faulted, close⟩ := levels
  constructor
  · rw [same.worklist.strategy, broad]
  · rwa [same.completed, same.pending_eq]
  · rwa [same.faulted, same.pending_eq]
  · rwa [same.pending_eq]

/-- A slice that is not cut off keeps the queue by levels. -/
theorem afterSlice
    {engine : Engine}
    {path : Path}
    {rest : Worklist Path}
    {slice : Slice Path}
    (levels : engine.ByLevels)
    (taken : engine.worklist.take? = some (path, rest))
    (descends : engine.Descends path slice.outcome) :
    (engine.afterSlice path rest slice).ByLevels := by
  obtain ⟨broad, completed, faulted, close⟩ := levels
  have restBroad : rest.strategy = .breadthFirst := by
    rw [Worklist.strategy_of_take? taken, broad]
  have pending_eq : engine.pending = path :: rest.toList :=
    Worklist.toList_of_take? broad taken
  have filed := engine.filed_afterSlice path rest slice
  rw [pending_eq, List.map_cons] at completed faulted close
  obtain ⟨firstClose, restClose⟩ := List.pairwise_cons.mp close
  obtain ⟨restDeeper, -⟩ :=
    List.pairwise_cons.mp (List.pairwise_append.mp completed).2.1
  have next_eq : ∀ next ∈ (engine.kept slice.outcome).map Path.level,
      next = path.level + 1 := List.forall_mem_map.mpr descends.kept
  constructor
  · rw [strategy_afterSlice, restBroad]
  · rw [filed.completed, pending_afterSlice restBroad, List.map_append,
      List.map_append]
    exact pairwise_levels_requeue completed firstClose
      (List.forall_mem_map.mpr descends.completed) next_eq
  · rw [filed.faulted, pending_afterSlice restBroad, List.map_append,
      List.map_append, List.map_append]
    exact pairwise_levels_requeue faulted firstClose
      (List.forall_mem_map.mpr descends.faulted) next_eq
  · rw [pending_afterSlice restBroad, List.map_append]
    refine List.pairwise_append.mpr ⟨restClose, ?_, ?_⟩
    · exact pairwise_of_single_level (Nat.le_succ _) next_eq
    · intro earlier waits later new
      rw [next_eq later new]
      exact Nat.succ_le_succ (restDeeper earlier waits)

end ByLevels

/-! ## Calls that cut no path off -/

open Relation

namespace Call

/-- Whether a turn runs a path and cuts it off. -/
def cutsOff (call : Call) : Bool :=
  match call.engine.worklist.take? with
  | some (path, _) => call.stop?.isNone && (call.slice path).outcome.isAdvanced
  | none => false

/-- A turn of a call is followed by another. -/
def IsFollowedBy (call next : Call) : Prop := call.turn = .next next

/-- No turn of a call, from this one on, cuts a path off. -/
def IsUncut (call : Call) : Prop :=
  ∀ later, ReflTransGen IsFollowedBy call later -> later.cutsOff = false

section Uncut

variable {call : Call} {path : Path} {rest : Worklist Path}

theorem IsUncut.isAdvanced_slice
    (uncut : call.IsUncut)
    (taken : call.engine.worklist.take? = some (path, rest))
    (goesOn : call.stop? = none) :
    (call.slice path).outcome.isAdvanced = false := by
  have whole := uncut call .refl
  unfold cutsOff at whole
  rw [taken, goesOn] at whole
  exact whole

theorem IsUncut.next
    {next : Call}
    (uncut : call.IsUncut)
    (turned : call.turn = .next next) :
    next.IsUncut :=
  fun later follows => uncut later (.head turned follows)

/-- A call cuts no path off if neither this turn nor a later one does. -/
theorem isUncut_of_next
    {next : Call}
    (whole : call.cutsOff = false)
    (turned : call.turn = .next next)
    (uncut : next.IsUncut) :
    call.IsUncut := by
  intro later follows
  rcases follows.cases_head with rfl | ⟨other, first, follows⟩
  · exact whole
  · cases first.symm.trans turned
    exact uncut later follows

/-- The last turn of a call. -/
theorem isUncut_of_truncated
    {reason : Truncation}
    {engine : Engine}
    (whole : call.cutsOff = false)
    (turned : call.turn = .truncated reason engine) :
    call.IsUncut := by
  intro later follows
  rcases follows.cases_head with rfl | ⟨other, first, -⟩
  · exact whole
  · cases first.symm.trans turned

end Uncut

/-- A turn that runs a path and does not cut it off keeps the queue by
levels. -/
theorem byLevels_afterRun
    {call : Call}
    {path : Path}
    {rest : Worklist Path}
    (levels : call.engine.ByLevels)
    (taken : call.engine.worklist.take? = some (path, rest))
    (whole : (call.slice path).outcome.isAdvanced = false) :
    (call.afterRun path rest).ByLevels := by
  have alsoTaken : call.asked.worklist.take? = some (path, rest) := by
    rwa [worklist_asked]
  exact (levels.of_sameWork call.sameWork_asked).afterSlice alsoTaken
    (descends_runSlice whole)

/-- A call that cuts no path off keeps the queue by levels. -/
theorem byLevels_complete
    {call : Call}
    (uncut : call.IsUncut)
    (levels : call.engine.ByLevels) :
    call.complete.2.ByLevels := by
  revert uncut levels
  refine complete_induction call ?_ ?_ ?_ ?_
  · intro call nothing uncut levels
    exact levels.of_sameWork (sameWork_record _ _)
  · intro call path rest reason taken stops uncut levels
    exact levels.of_sameWork (sameWork_afterStop taken reason)
  · intro call path rest reason taken goesOn overflows uncut levels
    have whole := uncut.isAdvanced_slice taken goesOn
    exact (byLevels_afterRun levels taken whole).of_sameWork
      (sameWork_truncate reason _)
  · intro call path rest taken goesOn fits later uncut levels
    have whole := uncut.isAdvanced_slice taken goesOn
    exact later (uncut.next (turn_of_next taken goesOn fits))
      (byLevels_afterRun levels taken whole)

end Call

section Created

variable {program : Program} {config : Config} {watchdog : Watchdog}
variable {names : Names}

/-- A new engine has a single path, on level zero. -/
theorem byLevels_create (broad : config.strategy = .breadthFirst) :
    (create program config watchdog names).ByLevels := by
  have levels : (fresh program config watchdog names).ByLevels := by
    refine ⟨broad, ?_, ?_, ?_⟩ <;>
    · rw [pending_fresh]
      exact List.pairwise_singleton _ _
  exact levels.of_sameWork (sameWork_create_fresh program config watchdog names)

/-- Calls that cut no path off keep the queue by levels. -/
theorem byLevels_afterCalls
    {calls : Nat}
    (broad : config.strategy = .breadthFirst)
    (uncut : ∀ index < calls,
      ((create program config watchdog names).afterCalls
        index).firstTurn.IsUncut) :
    ((create program config watchdog names).afterCalls calls).ByLevels := by
  induction calls with
  | zero => exact byLevels_create broad
  | succ calls inductionHypothesis =>
      have levels := inductionHypothesis fun index before =>
        uncut index (Nat.lt_succ_of_lt before)
      rw [afterCalls, execute_eq_complete]
      exact Call.byLevels_complete (uncut calls (Nat.lt_succ_self calls))
        (levels.of_sameWork (sameWork_firstTurn _))

end Created

/-- Breadth first, paths are explored level by level as long as no path is cut
off.  After any number of calls the levels of the waiting paths do not decrease
from front to back and differ by one at most.  The levels of the completed paths
do not decrease, nor do those of the faulted paths, and none of them is below the
level of a path that waits. -/
theorem breadth_first_goes_by_levels
    {program : Program}
    {config : Config}
    {watchdog : Watchdog}
    {names : Names}
    {calls : Nat}
    (broad : config.strategy = .breadthFirst)
    (uncut : ∀ index < calls,
      ((create program config watchdog names).afterCalls
        index).firstTurn.IsUncut) :
    let engine := (create program config watchdog names).afterCalls calls
    let faulted := engine.faulted.toList.map FaultedPath.path
    engine.pending.Pairwise (fun first second =>
        first.level ≤ second.level ∧ second.level ≤ first.level + 1) ∧
      engine.completed.toList.Pairwise (fun first second =>
        first.level ≤ second.level) ∧
      faulted.Pairwise (fun first second => first.level ≤ second.level) ∧
      ∀ ended ∈ engine.completed.toList ++ faulted,
        ∀ waiting ∈ engine.pending, ended.level ≤ waiting.level := by
  intro engine faulted
  obtain ⟨-, completedFirst, faultedFirst, close⟩ :=
    byLevels_afterCalls broad uncut
  obtain ⟨completedOrdered, waitingOrdered, completedAbove⟩ :=
    List.pairwise_append.mp completedFirst
  obtain ⟨faultedOrdered, -, faultedAbove⟩ :=
    List.pairwise_append.mp faultedFirst
  refine ⟨?_, List.pairwise_map.mp completedOrdered,
    List.pairwise_map.mp faultedOrdered, ?_⟩
  · exact (List.pairwise_map.mp waitingOrdered).and
      (List.pairwise_map.mp close)
  · intro ended hasEnded waiting waits
    have onQueue := List.mem_map_of_mem (f := Path.level) waits
    rcases List.mem_append.mp hasEnded with completed | hasFaulted
    · exact completedAbove _ (List.mem_map_of_mem completed) _ onQueue
    · exact faultedAbove _ (List.mem_map_of_mem hasFaulted) _ onQueue

/-- Two decisions, of which the second may lead to a third one.  At the end the
head moves, and leaves a tape of two cells if it has moved before. -/
def nestedDecisions : Program :=
  ⟨#[.read, .loopEnter, .moveRight, .loopExit, .read, .loopEnter, .read,
    .loopEnter, .moveRight, .loopExit, .loopExit, .moveRight, .read], none⟩

/-- The nested decisions, explored breadth first until two paths have ended. -/
def leveledEngine : Engine :=
  create nestedDecisions
    { tapeCapacity := 2
      strategy := .breadthFirst
      maximumTerminalStates := 2 }
    .idle

/-- The call takes six turns to the limit, and cuts no path off in any of
them. -/
theorem isUncut_leveledEngine : leveledEngine.firstTurn.IsUncut := by
  iterate 6 refine Call.isUncut_of_next rfl rfl ?_
  exact Call.isUncut_of_truncated rfl rfl

/-- A path has completed and another has faulted, both on level two, and the
paths that wait are on level two and on level three. -/
theorem breadth_first_goes_by_levels_nestedDecisions :
    let engine := leveledEngine.afterCalls 1
    engine.completed.toList.map Path.level = [2] ∧
      engine.faulted.toList.map (Path.level ·.path) = [2] ∧
      engine.pending.map Path.level = [2, 3, 3] ∧
      engine.pending.Pairwise (fun first second =>
        first.level ≤ second.level ∧ second.level ≤ first.level + 1) ∧
      ∀ ended ∈ engine.completed.toList
          ++ engine.faulted.toList.map FaultedPath.path,
        ∀ waiting ∈ engine.pending, ended.level ≤ waiting.level := by
  intro engine
  have uncut : ∀ index < 1,
      (leveledEngine.afterCalls index).firstTurn.IsUncut := by
    intro index before
    cases Nat.lt_one_iff.mp before
    exact isUncut_leveledEngine
  obtain ⟨waiting, -, -, above⟩ := breadth_first_goes_by_levels (by rfl) uncut
  refine ⟨?_, ?_, ?_, waiting, above⟩ <;>
  · unfold engine
    rw [afterCalls, afterCalls, execute_eq_complete]
    iterate 6 rw [complete_of_next rfl]
    rw [complete_of_truncated rfl]
    rfl

end Engine
end SymbolicTape
