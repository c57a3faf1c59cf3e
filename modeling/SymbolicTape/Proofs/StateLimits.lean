import SymbolicTape.Proofs.Interruption

/-!
# Limits on the number of paths

There is a limit on the number of paths that have ended and one on the number of
paths that wait.  They are looked at in different places.  The first one is
looked at before a path is run, so a call that stops there stops again if it is
repeated, and nothing happens in between.

The second one is looked at only after a fork has been filed.  A call that stops
there has forked a path, and there is room for another turn when it is repeated.
So the next call always runs a path, although too many of them wait already.
-/

namespace SymbolicTape
namespace Engine

/-! ## Slices -/

theorem slices_afterSlice
    (engine : Engine)
    (path : Path)
    (rest : Worklist Path)
    (slice : Slice Path) :
    (engine.afterSlice path rest slice).statistics.slices =
      engine.statistics.slices + 1 := by
  obtain ⟨executed, outcome⟩ := slice
  cases outcome with
  | forked location zero nonZero =>
      rw [afterSlice_forked]
      rfl
  | advanced | done | faulted => rfl

namespace Call

theorem slices_afterRun
    (call : Call)
    (path : Path)
    (rest : Worklist Path) :
    (call.afterRun path rest).statistics.slices =
      call.engine.statistics.slices + 1 := by
  unfold afterRun
  rw [slices_afterSlice, call.sameWork_asked.statistics]

/-- No slice is forgotten. -/
theorem slices_le_complete (call : Call) :
    call.engine.statistics.slices ≤ call.complete.2.statistics.slices := by
  refine complete_induction call ?_ ?_ ?_ ?_
  · intro call nothing
    exact Nat.le_refl _
  · intro call path rest reason taken stops
    rw [(sameWork_afterStop taken reason).statistics]
  · intro call path rest reason taken goesOn overflows
    exact (call.slices_afterRun path rest).symm ▸ Nat.le_succ _
  · intro call path rest taken goesOn fits later
    have slices_eq := call.slices_afterRun path rest
    exact (Nat.le_succ _).trans ((Nat.le_of_eq slices_eq.symm).trans later)

/-- A call that is not stopped before its first turn runs a path. -/
theorem slices_lt_complete
    {call : Call}
    (waits : call.engine.pending ≠ [])
    (goesOn : call.stop? = none) :
    call.engine.statistics.slices < call.complete.2.statistics.slices := by
  cases taken : call.engine.worklist.take? with
  | none => exact absurd (Worklist.toList_of_take?_eq_none taken) waits
  | some entry =>
      obtain ⟨path, rest⟩ := entry
      have slices_eq := call.slices_afterRun path rest
      cases overflows : (call.afterRun path rest).overflow?
          (call.slice path).outcome with
      | some reason =>
          rw [complete_of_truncated (turn_of_overflow? taken goesOn overflows)]
          exact Nat.lt_of_succ_le (Nat.le_of_eq slices_eq.symm)
      | none =>
          rw [complete_of_next (turn_of_next taken goesOn overflows)]
          have later := (call.afterTurn path rest).slices_le_complete
          exact Nat.lt_of_succ_le ((Nat.le_of_eq slices_eq.symm).trans later)

end Call

/-! ## Too many paths wait -/

/-- What is known about a call that stops because too many paths wait. -/
structure Overflowed (call : Call) (after : Engine) : Prop where
  /-- The limit on ended paths was not reached. -/
  notFull : after.terminalCount < after.config.maximumTerminalStates
  /-- The call had instructions left at its beginning. -/
  remained : call.remaining ≠ 0
  /-- The call has forked a path. -/
  forks_lt : call.engine.statistics.forks < after.statistics.forks
  /-- The call has executed an instruction. -/
  totalSteps_lt :
    call.engine.statistics.totalSteps < after.statistics.totalSteps

theorem Overflowed.truncate
    {call : Call}
    {after : Engine}
    (overflowed : Overflowed call after)
    (reason : Truncation) :
    Overflowed call (after.truncate reason) :=
  ⟨overflowed.notFull, overflowed.remained, overflowed.forks_lt,
    overflowed.totalSteps_lt⟩

/-- A fork ends no path. -/
theorem Filed.terminalCount_of_fork
    {before after : Engine}
    {rest : Worklist Path}
    {slice : Slice Path}
    (filed : Filed before rest slice after)
    (forks : slice.outcome.forkCount = 1) :
    after.terminalCount = before.terminalCount := by
  have completed_eq := congrArg List.length filed.completed
  have faulted_eq := congrArg List.length filed.faulted
  cases outcome_eq : slice.outcome with
  | forked location zero nonZero =>
      rw [outcome_eq] at completed_eq faulted_eq
      simp only [Outcome.completed, Outcome.faultedPaths, List.append_nil,
        Array.length_toList] at completed_eq faulted_eq
      unfold terminalCount
      rw [completed_eq, faulted_eq]
  | advanced | done | faulted =>
      rw [outcome_eq] at forks
      cases forks

/-- A fork is an instruction. -/
theorem executed_pos_of_fork
    {engine : Engine}
    {budget : Nat}
    {path : Path}
    (forks : (engine.runSlice budget path).outcome.forkCount = 1) :
    0 < (engine.runSlice budget path).executed := by
  revert forks
  refine runSlice_cases (motive := fun slice =>
    slice.outcome.forkCount = 1 -> 0 < slice.executed) budget ?_ ?_ ?_ ?_
  · nofun
  · nofun
  · intro count last zero nonZero runs effect_eq _
    exact Nat.succ_pos count
  · nofun

namespace Call

theorem stop?_ne_liveStateLimit (call : Call) (limit : Nat) :
    call.stop? ≠ some (.liveStateLimit limit) := by
  unfold stop? limit?
  split
  · nofun
  · split
    · nofun
    · split <;> nofun

section Overflowed

variable {call : Call} {path : Path} {rest : Worklist Path}

theorem overflowed_afterRun
    {reason : Truncation}
    (goesOn : call.stop? = none)
    (overflows : (call.afterRun path rest).overflow?
      (call.slice path).outcome = some reason) :
    Overflowed call (call.afterRun path rest) := by
  obtain ⟨-, -, forks⟩ := overflow?_eq_some overflows
  obtain ⟨notFull, remained⟩ :=
    limit?_eq_none_iff.mp (limit?_of_stop?_eq_none goesOn)
  have filed := call.filed_afterRun path rest
  have executed_pos : 0 < (call.slice path).executed :=
    executed_pos_of_fork forks
  refine ⟨?_, remained, ?_, ?_⟩
  · rw [filed.terminalCount_of_fork forks, config_afterRun,
      call.sameWork_asked.terminalCount]
    exact notFull
  · rw [filed.forks, forks, call.sameWork_asked.statistics]
    exact Nat.lt_succ_self _
  · rw [totalSteps_afterRun]
    exact Nat.lt_add_of_pos_right executed_pos

/-- A call that stops because too many paths wait has forked one of them. -/
theorem overflowed_complete
    (call : Call)
    {limit : Nat}
    (overflows : call.complete.1 = some (.liveStateLimit limit)) :
    Overflowed call call.complete.2 := by
  revert overflows
  refine complete_induction call ?_ ?_ ?_ ?_
  · nofun
  · intro call path rest reason taken stops overflows
    exact absurd (stops.trans overflows) (call.stop?_ne_liveStateLimit limit)
  · intro call path rest reason taken goesOn overflows _
    exact (overflowed_afterRun goesOn overflows).truncate reason
  · intro call path rest taken goesOn fits later overflows
    obtain ⟨notFull, -, forks_lt, totalSteps_lt⟩ := later overflows
    have filed := call.filed_afterRun path rest
    have forks_eq := filed.forks
    rw [call.sameWork_asked.statistics] at forks_eq
    have totalSteps_eq := call.totalSteps_afterRun path rest
    refine ⟨notFull, ?_, ?_, ?_⟩
    · exact (limit?_eq_none_iff.mp (limit?_of_stop?_eq_none goesOn)).2
    · refine Nat.lt_of_le_of_lt ?_ forks_lt
      exact (Nat.le_add_right _ _).trans (Nat.le_of_eq forks_eq.symm)
    · refine Nat.lt_of_le_of_lt ?_ totalSteps_lt
      exact (Nat.le_add_right _ _).trans (Nat.le_of_eq totalSteps_eq.symm)

end Overflowed
end Call

/-! ## Further calls -/

section Further

variable {engine : Engine}

/-- A call that finds the limit on ended paths reached stops at once. -/
theorem execute_of_full
    (neverStops : ∀ question, engine.watchdog.shouldStop question = false)
    (waits : engine.pending ≠ [])
    (full : engine.config.maximumTerminalStates ≤ engine.terminalCount) :
    engine.execute.1 =
        some (.terminalStateLimit engine.config.maximumTerminalStates) ∧
      engine.execute.2.SameWork engine := by
  cases taken : engine.firstTurn.engine.worklist.take? with
  | none => exact absurd (Worklist.toList_of_take?_eq_none taken) waits
  | some entry =>
      obtain ⟨path, rest⟩ := entry
      have limit_eq : engine.firstTurn.limit? =
          some (.terminalStateLimit engine.config.maximumTerminalStates) :=
        if_pos full
      have stops := (Call.stop?_of_neverStops neverStops).trans limit_eq
      rw [execute_eq_complete,
        complete_of_truncated (Call.turn_of_stop? taken stops)]
      exact ⟨rfl, (Call.sameWork_afterStop taken _).trans
        (sameWork_firstTurn engine)⟩

/-- A call that finds no limit reached runs a path. -/
theorem slices_lt_execute
    (neverStops : ∀ question, engine.watchdog.shouldStop question = false)
    (waits : engine.pending ≠ [])
    (notFull : engine.terminalCount < engine.config.maximumTerminalStates)
    (allowed : engine.config.maximumTotalSteps ≠ 0) :
    engine.statistics.slices < engine.execute.2.statistics.slices := by
  have goesOn : engine.firstTurn.stop? = none :=
    (Call.stop?_of_neverStops neverStops).trans
      (Call.limit?_eq_none_iff.mpr ⟨notFull, allowed⟩)
  exact @Call.slices_lt_complete engine.firstTurn waits goesOn

end Further

/-- What a further call does after one that stopped at a limit on the number of
paths.  After the limit on ended paths it stops there again, and nothing has
changed.  After the limit on waiting paths it always runs a path first, and if
it stops there again, then it has executed instructions and forked once
more. -/
theorem further_call_after_state_limit
    {engine : Engine}
    (neverStops : ∀ question, engine.watchdog.shouldStop question = false) :
    (∀ {limit}, engine.execute.1 = some (.terminalStateLimit limit) ->
      let stopped := engine.execute.2
      stopped.execute.1 = some (.terminalStateLimit limit) ∧
        stopped.execute.2.completed = stopped.completed ∧
        stopped.execute.2.faulted = stopped.faulted ∧
        stopped.execute.2.pending = stopped.pending ∧
        stopped.execute.2.statistics = stopped.statistics) ∧
    (∀ {limit}, engine.execute.1 = some (.liveStateLimit limit) ->
      let stopped := engine.execute.2
      stopped.statistics.slices < stopped.execute.2.statistics.slices ∧
        (∀ {again}, stopped.execute.1 = some (.liveStateLimit again) ->
          stopped.statistics.totalSteps <
              stopped.execute.2.statistics.totalSteps ∧
            stopped.statistics.forks <
              stopped.execute.2.statistics.forks)) := by
  have ended := engine.firstTurn.ended_complete
  rw [← execute_eq_complete] at ended
  have stillGoesOn : ∀ question,
      engine.execute.2.watchdog.shouldStop question = false := by
    rw [ended.watchdog_eq]
    exact neverStops
  constructor
  · intro limit stops stopped
    obtain ⟨rfl, full⟩ := ended.justified stops
    obtain ⟨stopsAgain, same⟩ :=
      execute_of_full stillGoesOn (ended.pending stops) full
    exact ⟨stopsAgain, same.completed, same.faulted, same.worklist.toList,
      same.statistics⟩
  · intro limit stops stopped
    obtain ⟨notFull, remained, -, -⟩ :=
      engine.firstTurn.overflowed_complete stops
    have allowed : stopped.config.maximumTotalSteps ≠ 0 := by
      rw [ended.config_eq]
      exact remained
    refine ⟨slices_lt_execute stillGoesOn (ended.pending stops) notFull allowed,
      ?_⟩
    intro again stopsAgain
    have overflowed := stopped.firstTurn.overflowed_complete stopsAgain
    exact ⟨overflowed.totalSteps_lt, overflowed.forks_lt⟩

/-- An input byte that decides whether the head moves. -/
def oneBranch : Program :=
  ⟨#[.read, .loopEnter, .moveRight, .loopExit], none⟩

/-- The branch, explored where one path may wait. -/
def crowdedEngine : Engine :=
  create oneBranch { tapeCapacity := 4, maximumLiveStates := 1 } .idle

/-- The branch, explored where one path may end. -/
def fullEngine : Engine :=
  create oneBranch { tapeCapacity := 4, maximumTerminalStates := 1 } .idle

theorem execute_crowdedEngine :
    crowdedEngine.execute.1 = some (.liveStateLimit 1) := by
  rw [execute_eq_complete]
  exact congrArg Prod.fst (complete_of_truncated rfl)

/-- A further call after each of the two limits. -/
theorem further_call_after_state_limit_oneBranch :
    crowdedEngine.execute.1 = some (.liveStateLimit 1) ∧
      crowdedEngine.execute.2.statistics.slices <
        crowdedEngine.execute.2.execute.2.statistics.slices ∧
      fullEngine.execute.1 = some (.terminalStateLimit 1) ∧
      fullEngine.execute.2.execute.1 = some (.terminalStateLimit 1) ∧
      fullEngine.execute.2.execute.2.pending =
        fullEngine.execute.2.pending := by
  have fullStops : fullEngine.execute.1 = some (.terminalStateLimit 1) := by
    rw [execute_eq_complete]
    iterate 2 rw [complete_of_next rfl]
    exact congrArg Prod.fst (complete_of_truncated rfl)
  have crowdedFurther := (@further_call_after_state_limit crowdedEngine
    fun _ => rfl).2 execute_crowdedEngine
  have fullFurther := (@further_call_after_state_limit fullEngine
    fun _ => rfl).1 fullStops
  exact ⟨execute_crowdedEngine, crowdedFurther.1, fullStops, fullFurther.1,
    fullFurther.2.2.2.1⟩

/-- The limit on waiting paths does not last.  A call stops there with two paths
waiting, and the next one runs both to the end. -/
theorem live_state_limit_does_not_last :
    crowdedEngine.execute.1 = some (.liveStateLimit 1) ∧
      crowdedEngine.execute.2.pending.length = 2 ∧
      crowdedEngine.execute.2.statistics.totalSteps = 2 ∧
      crowdedEngine.execute.2.execute.1 = none ∧
      crowdedEngine.execute.2.execute.2.completed.size = 2 ∧
      crowdedEngine.execute.2.execute.2.statistics.totalSteps = 4 := by
  have stopped : crowdedEngine.execute = (some (.liveStateLimit 1), _) :=
    (execute_eq_complete crowdedEngine).trans (complete_of_truncated rfl)
  refine ⟨execute_crowdedEngine, ?_⟩
  rw [stopped]
  refine ⟨rfl, rfl, ?_⟩
  rw [execute_eq_complete]
  iterate 2 rw [complete_of_next rfl]
  rw [complete_of_finished rfl]
  exact ⟨rfl, rfl, rfl⟩

end Engine
end SymbolicTape
