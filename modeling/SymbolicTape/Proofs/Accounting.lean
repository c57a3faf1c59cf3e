import SymbolicTape.Proofs.ForkTree
import SymbolicTape.Proofs.Moments

/-!
# Statistics account for every path

A slice takes one path and leaves one, or two if the path forks.  A side that is
dropped is counted as such, so the paths of the engine and the dropped ones
together are one more than the forks.

The largest number of waiting paths is looked at only after a fork.  This is
enough, because no other slice lets more paths wait than before.  So the counter
is the maximum over all moments of the exploration.
-/

namespace SymbolicTape

theorem Outcome.forkCount_le_one (outcome : Outcome σ) :
    outcome.forkCount ≤ 1 := by
  cases outcome with
  | forked => exact Nat.le_refl 1
  | advanced | done | faulted => exact Nat.zero_le 1

namespace Engine

/-! ## What a slice leaves -/

/-- A slice leaves one path, or two if it ends in a fork, of which some may be
dropped. -/
theorem length_outcomes_add_dropped (engine : Engine) (outcome : Outcome Path) :
    (engine.outcomes outcome).length + (engine.dropped outcome).length =
      1 + outcome.forkCount := by
  cases outcome with
  | forked location zero nonZero =>
      have sides := [zero, nonZero].length_eq_length_filter_add engine.isPruned
      exact (Nat.add_comm _ _).trans sides.symm
  | advanced | done | faulted => rfl

/-- Only a fork lets more paths go on than were taken. -/
theorem length_kept_le (engine : Engine) (outcome : Outcome Path) :
    (engine.kept outcome).length ≤ 1 + outcome.forkCount := by
  have total := engine.length_outcomes_add_dropped outcome
  unfold outcomes at total
  rw [List.length_append] at total
  omega

theorem length_paths (engine : Engine) :
    engine.paths.length =
      engine.completed.size + engine.faulted.size + engine.pending.length := by
  simp [paths, Nat.add_assoc]

/-- Only a fork raises the largest number of waiting paths. -/
theorem peakLiveStates_afterSlice
    (engine : Engine)
    (path : Path)
    (rest : Worklist Path)
    (slice : Slice Path) :
    (engine.afterSlice path rest slice).statistics.peakLiveStates =
      if slice.outcome.forkCount = 1 then
        max engine.statistics.peakLiveStates
          (engine.afterSlice path rest slice).pending.length
      else
        engine.statistics.peakLiveStates := by
  obtain ⟨executed, outcome⟩ := slice
  cases outcome with
  | forked location zero nonZero =>
      unfold pending
      rw [Worklist.length_toList, afterSlice_forked]
      rfl
  | advanced | done | faulted => rfl

namespace Call

section Waiting

variable {call : Call} {path : Path} {rest : Worklist Path}

/-- A turn that runs a path replaces it by those that go on. -/
theorem length_pending_afterRun
    (taken : call.engine.worklist.take? = some (path, rest)) :
    (call.afterRun path rest).pending.length + 1 =
      call.engine.pending.length +
        (call.asked.kept (call.slice path).outcome).length := by
  have before_eq := (Worklist.perm_of_take? taken).length_eq
  have after_eq := (call.filed_afterRun path rest).pending.length_eq
  rw [List.length_cons] at before_eq
  rw [List.length_append] at after_eq
  unfold pending at after_eq ⊢
  omega

/-- If no more paths wait than the counter says, then a turn brings the counter
up to date. -/
theorem peakLiveStates_afterRun
    (taken : call.engine.worklist.take? = some (path, rest))
    (seen : call.engine.pending.length ≤
      call.engine.statistics.peakLiveStates) :
    (call.afterRun path rest).statistics.peakLiveStates =
      max call.engine.statistics.peakLiveStates
        (call.afterRun path rest).pending.length := by
  have peak_eq := call.asked.peakLiveStates_afterSlice path rest
    (call.slice path)
  rw [call.sameWork_asked.statistics] at peak_eq
  have length_eq := length_pending_afterRun taken
  have kept_le := call.asked.length_kept_le (call.slice path).outcome
  unfold afterRun at length_eq ⊢
  rw [peak_eq]
  split
  · rfl
  · rename_i noFork
    have forkCount_le := (call.slice path).outcome.forkCount_le_one
    omega

end Waiting
end Call

/-! ## The accounts -/

/-- What the counters of an engine say about its paths. -/
structure Accounted (engine : Engine) : Prop where
  /-- Every fork makes one more path, which is there or was dropped. -/
  paths_add_pruned : engine.paths.length + engine.statistics.pruned =
    1 + engine.statistics.forks
  steps_le : ∀ path ∈ engine.paths,
    path.state.steps ≤ engine.statistics.totalSteps
  constraint_le : ∀ path ∈ engine.paths,
    path.state.constraint.length ≤ engine.statistics.forks
  pending_le : engine.pending.length ≤ engine.statistics.peakLiveStates
  one_le_peak : 1 ≤ engine.statistics.peakLiveStates
  peak_le : engine.statistics.peakLiveStates ≤ 1 + engine.statistics.forks

theorem accounted_fresh
    (program : Program)
    (config : Config)
    (watchdog : Watchdog)
    (names : Names) :
    Accounted (fresh program config watchdog names) := by
  have paths_eq : (fresh program config watchdog names).paths =
      [Path.initial names config.tapeCapacity] :=
    pending_fresh program config watchdog names
  refine ⟨?_, ?_, ?_, ?_, Nat.le_refl 1, Nat.le_refl 1⟩
  · rw [paths_eq]
    rfl
  · rw [paths_eq]
    exact List.forall_mem_singleton.mpr (Nat.le_refl 0)
  · rw [paths_eq]
    exact List.forall_mem_singleton.mpr (Nat.le_refl 0)
  · rw [pending_fresh]
    exact Nat.le_refl 1

theorem Accounted.sameWork
    {before after : Engine}
    (accounted : Accounted before)
    (same : after.SameWork before) :
    Accounted after := by
  have paths_eq : after.paths = before.paths := by
    unfold paths
    rw [same.completed, same.faulted, same.pending_eq]
  obtain ⟨paths_add_pruned, steps_le, constraint_le, pending_le, one_le_peak,
    peak_le⟩ := accounted
  refine ⟨?_, ?_, ?_, ?_, ?_, ?_⟩
  · rwa [paths_eq, same.statistics]
  · rwa [paths_eq, same.statistics]
  · rwa [paths_eq, same.statistics]
  · rwa [same.pending_eq, same.statistics]
  · rwa [same.statistics]
  · rwa [same.statistics]

section Filed

variable {before after : Engine} {path : Path} {rest : Worklist Path}
variable {budget : Nat}

/-- A slice keeps the number of paths in line with the counters. -/
theorem Filed.paths_add_pruned
    (filed : Filed before rest (before.runSlice budget path) after)
    (taken : before.worklist.toList.Perm (path :: rest.toList))
    (accounted : Accounted before) :
    after.paths.length + after.statistics.pruned =
      1 + after.statistics.forks := by
  have count_eq := accounted.paths_add_pruned
  have before_length := (perm_paths_of_taken taken).length_eq
  have after_length := filed.perm_paths.length_eq
  have left := before.length_outcomes_add_dropped
    (before.runSlice budget path).outcome
  have pruned_eq := filed.pruned
  have forks_eq := filed.forks
  rw [List.length_cons] at before_length
  rw [List.length_append] at after_length
  omega

/-- A path after a slice continues the one that was run, or it was there
before. -/
theorem Filed.mem_paths
    (filed : Filed before rest (before.runSlice budget path) after)
    (taken : before.worklist.toList.Perm (path :: rest.toList))
    {next : Path}
    (member : next ∈ after.paths) :
    (path ∈ before.paths ∧ path.Continues (before.runSlice budget path) next) ∨
      next ∈ before.paths := by
  have before_perm := perm_paths_of_taken taken
  rcases List.mem_append.mp (filed.perm_paths.mem_iff.mp member) with new | old
  · exact .inl ⟨before_perm.mem_iff.mpr List.mem_cons_self,
      (branches_runSlice before path budget).continues next new⟩
  · exact .inr (before_perm.mem_iff.mpr (List.mem_cons_of_mem _ old))

/-- A slice keeps the accounts, if the number of waiting paths is looked at. -/
theorem Accounted.filed
    (accounted : Accounted before)
    (taken : before.worklist.toList.Perm (path :: rest.toList))
    (filed : Filed before rest (before.runSlice budget path) after)
    (peak_eq : after.statistics.peakLiveStates =
      max before.statistics.peakLiveStates after.pending.length) :
    Accounted after := by
  have paths_add_pruned := filed.paths_add_pruned taken accounted
  have totalSteps_eq := filed.totalSteps
  have forks_eq := filed.forks
  refine ⟨paths_add_pruned, ?_, ?_, ?_, ?_, ?_⟩
  · intro next member
    rcases filed.mem_paths taken member with ⟨there, continues⟩ | old
    · have steps_le := accounted.steps_le path there
      have steps_eq := continues.steps_eq
      omega
    · exact (accounted.steps_le next old).trans
        (totalSteps_eq ▸ Nat.le_add_right _ _)
  · intro next member
    rcases filed.mem_paths taken member with ⟨there, continues⟩ | old
    · have constraint_le := accounted.constraint_le path there
      have length_eq := continues.length_eq
      omega
    · exact (accounted.constraint_le next old).trans
        (forks_eq ▸ Nat.le_add_right _ _)
  · rw [peak_eq]
    exact le_max_right _ _
  · rw [peak_eq]
    exact le_max_of_le_left accounted.one_le_peak
  · have peak_le := accounted.peak_le
    have waiting_le := after.length_paths
    rw [peak_eq]
    apply max_le
    · omega
    · omega

end Filed

/-- A turn that runs a path keeps the accounts. -/
theorem Accounted.afterRun
    {call : Call}
    {path : Path}
    {rest : Worklist Path}
    (accounted : Accounted call.engine)
    (taken : call.engine.worklist.take? = some (path, rest)) :
    Accounted (call.afterRun path rest) := by
  have peak_eq := Call.peakLiveStates_afterRun taken accounted.pending_le
  rw [← call.sameWork_asked.statistics] at peak_eq
  have permuted := Worklist.perm_of_take? taken
  rw [← call.sameWork_asked.worklist.toList] at permuted
  exact (accounted.sameWork call.sameWork_asked).filed permuted
    (call.filed_afterRun path rest) peak_eq

/-- The accounts of a new engine are right at all moments. -/
theorem accounted_afterCalls
    (program : Program)
    (config : Config)
    (watchdog : Watchdog)
    (names : Names)
    (calls : Nat) :
    Accounted ((create program config watchdog names).afterCalls calls) := by
  have created : Accounted (create program config watchdog names) :=
    (accounted_fresh program config watchdog names).sameWork
      (sameWork_create_fresh program config watchdog names)
  refine (invariant_moments ?_ ?_ created calls).2
  · intro before after accounted same
    exact accounted.sameWork same
  · intro call path rest accounted taken _
    exact accounted.afterRun taken

/-! ## The largest number of waiting paths -/

/-- The largest number of waiting paths after a call is the maximum of the one
before and of the numbers at its moments. -/
theorem Call.peakLiveStates_complete
    (call : Call)
    (accounted : Accounted call.engine) :
    call.complete.2.statistics.peakLiveStates =
      (call.moments.map fun moment => moment.pending.length).foldl max
        call.engine.statistics.peakLiveStates := by
  revert accounted
  refine moments_induction call ?_ ?_ ?_ ?_
  · intro call nothing _
    rfl
  · intro call path rest reason taken stops _
    exact congrArg Statistics.peakLiveStates
      (sameWork_afterStop taken reason).statistics
  · intro call path rest reason taken goesOn overflows accounted
    have same := sameWork_truncate reason (call.afterRun path rest)
    rw [List.map_singleton, same.statistics, same.pending_eq]
    exact peakLiveStates_afterRun taken accounted.pending_le
  · intro call path rest taken goesOn fits later accounted
    have peak_eq := peakLiveStates_afterRun taken accounted.pending_le
    have stillAccounted : Accounted (call.afterTurn path rest).engine :=
      accounted.afterRun taken
    rw [later stillAccounted, List.map_cons, List.foldl_cons, ← peak_eq]
    rfl

section AfterCalls

variable (program : Program) (config : Config) (watchdog : Watchdog)
variable (names : Names) (calls : Nat)

/-- A single path waits in a new engine. -/
theorem length_pending_create :
    (create program config watchdog names).pending.length = 1 := by
  rw [(sameWork_create_fresh program config watchdog names).pending_eq,
    pending_fresh]
  rfl

/-- The largest number of waiting paths is the maximum over all moments of all
calls. -/
theorem peakLiveStates_afterCalls :
    let start := create program config watchdog names
    (start.afterCalls calls).statistics.peakLiveStates =
      ((start.moments calls).map fun moment => moment.pending.length).foldl max
        start.pending.length := by
  intro start
  induction calls with
  | zero =>
      rw [length_pending_create]
      exact congrArg Statistics.peakLiveStates
        (sameWork_create_fresh program config watchdog names).statistics
  | succ calls inductionHypothesis =>
      have same := sameWork_firstTurn (start.afterCalls calls)
      have accounted := (accounted_afterCalls program config watchdog
        names calls).sameWork same
      have peak_eq := (start.afterCalls calls).firstTurn.peakLiveStates_complete
        accounted
      rw [afterCalls, execute_eq_complete, peak_eq, same.statistics,
        inductionHypothesis, moments, List.map_append, List.foldl_append]

end AfterCalls

/-- The statistics account for every path.  The completed, the faulted, the
waiting and the dropped paths are one more than the forks.  The largest number
of waiting paths is the maximum over the new engine and all moments right after
a slice was filed, of which there are as many as slices; it lies between one and
one more than the forks.  No path has executed more instructions than all of
them together, or has more clauses than there were forks. -/
theorem statistics_account_for_paths
    (program : Program)
    (config : Config)
    (watchdog : Watchdog)
    (names : Names)
    (calls : Nat) :
    let start := create program config watchdog names
    let engine := start.afterCalls calls
    let statistics := engine.statistics
    engine.completed.size + engine.faulted.size + engine.pending.length
        + statistics.pruned = 1 + statistics.forks ∧
      ((start :: start.moments calls).map fun moment =>
        moment.pending.length).max? = some statistics.peakLiveStates ∧
      (start.moments calls).length = statistics.slices ∧
      1 ≤ statistics.peakLiveStates ∧
      statistics.peakLiveStates ≤ 1 + statistics.forks ∧
      ∀ path ∈ engine.completed.toList
          ++ engine.faulted.toList.map FaultedPath.path ++ engine.pending,
        path.state.steps ≤ statistics.totalSteps ∧
          path.state.constraint.length ≤ statistics.forks := by
  intro start engine statistics
  have accounted : Accounted engine :=
    accounted_afterCalls program config watchdog names calls
  have peak_eq := peakLiveStates_afterCalls program config watchdog names calls
  have slices_eq : statistics.slices = start.statistics.slices +
      (start.moments calls).length := slices_afterCalls calls start
  have noSlices : start.statistics.slices = 0 := congrArg Statistics.slices
    (sameWork_create_fresh program config watchdog names).statistics
  refine ⟨?_, ?_, ?_, accounted.one_le_peak, accounted.peak_le, ?_⟩
  · rw [← length_paths]
    exact accounted.paths_add_pruned
  · rw [List.map_cons, List.max?_cons', ← peak_eq]
  · rw [slices_eq, noSlices, Nat.zero_add]
  · intro path member
    exact ⟨accounted.steps_le path member, accounted.constraint_le path member⟩

end Engine
end SymbolicTape
