import SymbolicTape.Exploration
import SymbolicTape.Proofs.Moments

/-!
# Limits are respected and early stops are truthful

A call can be stopped by the watchdog and by three limits, which are looked at
in a fixed order around the slices.  Whatever stops a call, the reason that it
gives holds of the engine that it leaves, and it is the one that the engine
remembers.  A call that uses the last instruction or the last place for an ended
path and has nothing left to run has not been stopped.
-/

namespace SymbolicTape

/-- A slice ends at most one path. -/
theorem Outcome.length_ended_le_one (outcome : Outcome Path) :
    outcome.completed.length + outcome.faultedPaths.length ≤ 1 := by
  cases outcome with
  | done | faulted => exact Nat.le_refl 1
  | advanced | forked => exact Nat.zero_le 1

namespace Engine

/-! ## What a call remembers -/

/-- Filing a slice leaves the reason to stop and the questions to the watchdog
alone. -/
theorem frame_afterSlice
    (engine : Engine)
    (path : Path)
    (rest : Worklist Path)
    (slice : Slice Path) :
    (engine.afterSlice path rest slice).truncation = engine.truncation ∧
      (engine.afterSlice path rest slice).polls = engine.polls := by
  obtain ⟨executed, outcome⟩ := slice
  cases outcome with
  | forked location zero nonZero =>
      rw [afterSlice_forked]
      exact ⟨rfl, rfl⟩
  | advanced | done | faulted => exact ⟨rfl, rfl⟩

namespace Call

section Turns

variable {call : Call} {path : Path} {rest : Worklist Path}

theorem truncation_afterRun :
    (call.afterRun path rest).truncation = call.engine.truncation := by
  unfold afterRun
  rw [(frame_afterSlice _ _ _ _).1, asked_eq]

/-- The questions to the watchdog are counted. -/
theorem polls_le_afterRun :
    call.engine.polls ≤ (call.afterRun path rest).polls := by
  unfold afterRun asked poll
  rw [(frame_afterSlice _ _ _ _).2]
  split
  · exact Nat.le_succ _
  · exact Nat.le_refl _

/-- A turn ends at most one path. -/
theorem terminalCount_afterRun_le :
    (call.afterRun path rest).terminalCount ≤
      call.engine.terminalCount + 1 := by
  have filed := call.filed_afterRun path rest
  have completed_eq := congrArg List.length filed.completed
  have faulted_eq := congrArg List.length filed.faulted
  have ended_le := (call.slice path).outcome.length_ended_le_one
  rw [List.length_append, Array.length_toList, Array.length_toList,
    call.sameWork_asked.completed] at completed_eq
  rw [List.length_append, Array.length_toList, Array.length_toList,
    call.sameWork_asked.faulted] at faulted_eq
  unfold terminalCount
  omega

end Turns

/-- A call remembers why it stopped, if it did. -/
theorem truncation_complete
    {call : Call}
    (unset : call.engine.truncation = none) :
    call.complete.2.truncation = call.complete.1 := by
  revert unset
  refine complete_induction call ?_ ?_ ?_ ?_
  · intro call nothing unset
    exact unset
  · intro call path rest reason taken stops _
    rfl
  · intro call path rest reason taken goesOn overflows _
    rfl
  · intro call path rest taken goesOn fits later unset
    exact later (truncation_afterRun.trans unset)

/-- A call that is stopped by the watchdog has asked it, and the last answer was
to stop. -/
theorem exists_question_of_interrupted
    (call : Call)
    (interrupted : call.complete.1 = some .stoppedByWatchdog) :
    ∃ question, call.engine.polls ≤ question ∧
      call.complete.2.polls = question + 1 ∧
      call.engine.watchdog.shouldStop question = true := by
  revert interrupted
  refine complete_induction call ?_ ?_ ?_ ?_
  · nofun
  · intro call path rest reason taken stops interrupted
    cases interrupted
    obtain ⟨polls_eq, answer⟩ := asked_of_stoppedByWatchdog stops
    exact ⟨call.engine.polls, Nat.le_refl _, polls_eq, answer⟩
  · intro call path rest reason taken goesOn overflows interrupted
    cases interrupted
    cases (overflow?_eq_some overflows).1
  · intro call path rest taken goesOn fits later interrupted
    obtain ⟨question, asked_le, polls_eq, answer⟩ := later interrupted
    have watchdog_eq : (call.afterTurn path rest).engine.watchdog =
        call.engine.watchdog := watchdog_afterRun
    exact ⟨question, polls_le_afterRun.trans asked_le, polls_eq,
      watchdog_eq ▸ answer⟩

end Call

/-! ## The limit on ended paths -/

/-- An engine of a configuration in which no more paths have ended than may. -/
structure WithinLimit (config : Config) (engine : Engine) : Prop where
  config_eq : engine.config = config
  terminalCount_le : engine.terminalCount ≤ config.maximumTerminalStates

theorem WithinLimit.sameWork
    {config : Config}
    {before after : Engine}
    (within : WithinLimit config before)
    (same : after.SameWork before) :
    WithinLimit config after :=
  ⟨same.config.trans within.config_eq,
    same.terminalCount.trans_le within.terminalCount_le⟩

/-- A path is run only if there is room for one more that has ended. -/
theorem WithinLimit.afterRun
    {config : Config}
    {call : Call}
    {path : Path}
    {rest : Worklist Path}
    (within : WithinLimit config call.engine)
    (goesOn : call.stop? = none) :
    WithinLimit config (call.afterRun path rest) := by
  have notFull := (Call.limit?_eq_none_iff.mp
    (Call.limit?_of_stop?_eq_none goesOn)).1
  rw [within.config_eq] at notFull
  exact ⟨Call.config_afterRun.trans within.config_eq,
    Call.terminalCount_afterRun_le.trans notFull⟩

section AfterCalls

variable (program : Program) (config : Config) (watchdog : Watchdog)
variable (names : Names)

theorem withinLimit_create :
    WithinLimit config (create program config watchdog names) := by
  have freshWithin : WithinLimit config (fresh program config watchdog names) :=
    ⟨rfl, Nat.zero_le _⟩
  exact freshWithin.sameWork
    (sameWork_create_fresh program config watchdog names)

/-- The limit on ended paths is kept at all moments. -/
theorem withinLimit_moments (calls : Nat) :
    (∀ moment ∈ (create program config watchdog names).moments calls,
        WithinLimit config moment) ∧
      WithinLimit config
        ((create program config watchdog names).afterCalls calls) := by
  have created := withinLimit_create program config watchdog names
  refine invariant_moments ?_ ?_ created calls
  · intro before after within same
    exact within.sameWork same
  · intro call path rest within _ goesOn
    exact within.afterRun goesOn

theorem watchdog_afterCalls (calls : Nat) :
    ((create program config watchdog names).afterCalls calls).watchdog =
      watchdog := by
  induction calls with
  | zero => exact watchdog_create program config watchdog names
  | succ calls inductionHypothesis =>
      have ended := ((create program config watchdog names).afterCalls
        calls).firstTurn.ended_complete
      exact ended.watchdog_eq.trans inductionHypothesis

end AfterCalls

/-! ## Truthful stops -/

/-- What a reason to stop says about the engines before and after a call. -/
def IsTruthful
    (config : Config)
    (watchdog : Watchdog)
    (before after : Engine) : Truncation -> Prop
  | .liveStateLimit limit =>
      limit = config.maximumLiveStates ∧ limit < after.pending.length
  | .stepLimit limit =>
      limit = config.maximumTotalSteps ∧
        after.statistics.totalSteps = before.statistics.totalSteps + limit
  | .terminalStateLimit limit =>
      limit = config.maximumTerminalStates ∧
        after.completed.size + after.faulted.size = limit
  | .stoppedByWatchdog =>
      -- The last question was asked in this call.
      ∃ question, before.polls ≤ question ∧ after.polls = question + 1 ∧
        watchdog.shouldStop question = true

/-- The reason that a call gives is true, if the engine keeps to the limit on
ended paths. -/
theorem isTruthful_execute
    {config : Config}
    {before : Engine}
    {reason : Truncation}
    (config_eq : before.config = config)
    (within : WithinLimit config before.execute.2)
    (stopped : before.execute.1 = some reason) :
    IsTruthful config before.watchdog before before.execute.2 reason := by
  have ended := before.firstTurn.ended_complete
  rw [← execute_eq_complete] at ended
  have justified := ended.justified stopped
  have after_config : before.execute.2.config = config := within.config_eq
  cases reason with
  | liveStateLimit limit =>
      obtain ⟨limit_eq, tooMany, -⟩ := justified
      exact ⟨limit_eq.trans (congrArg Config.maximumLiveStates after_config),
        tooMany⟩
  | stepLimit limit =>
      obtain ⟨recorded, spent⟩ := justified
      have limit_eq := recorded.trans
        (congrArg Config.maximumTotalSteps after_config)
      refine ⟨limit_eq, spent.trans ?_⟩
      rw [limit_eq, ← config_eq]
      rfl
  | terminalStateLimit limit =>
      obtain ⟨recorded, full⟩ := justified
      have limit_eq := recorded.trans
        (congrArg Config.maximumTerminalStates after_config)
      refine ⟨limit_eq, Nat.le_antisymm ?_ full⟩
      rw [limit_eq]
      exact within.terminalCount_le
  | stoppedByWatchdog =>
      exact before.firstTurn.exists_question_of_interrupted stopped

/-- A call that is not stopped leaves nothing to be run, and only such a
call. -/
theorem execute_eq_none_iff (engine : Engine) :
    engine.execute.1 = none ↔ engine.execute.2.pending = [] := by
  constructor
  · intro finished
    exact pending_of_execute (Prod.ext finished rfl)
  · intro nothing
    cases stopped : engine.execute.1 with
    | none => rfl
    | some reason =>
        exact absurd nothing (engine.firstTurn.ended_complete.pending stopped)

/-- Limits are respected and early stops are truthful, in every call of an
engine.  A call executes no more instructions than it may, and at no moment have
more paths ended than may.  A call is not stopped exactly if it leaves nothing
to be run.  The engine remembers the reason why a call was stopped, and the
reason is true.  So an exploration is exhaustive exactly if nothing is left
unexplored, and exactly if it was not stopped. -/
theorem stops_are_truthful
    (program : Program)
    (config : Config)
    (watchdog : Watchdog)
    (names : Names)
    (calls : Nat) :
    let start := create program config watchdog names
    let before := start.afterCalls calls
    let outcome := before.execute.1
    let after := before.execute.2
    after.statistics.totalSteps ≤
        before.statistics.totalSteps + config.maximumTotalSteps ∧
      (∀ engine ∈ start :: after :: start.moments (calls + 1),
        engine.completed.size + engine.faulted.size ≤
          config.maximumTerminalStates) ∧
      (outcome = none ↔ after.pending = []) ∧
      after.truncation = outcome ∧
      (∀ reason, outcome = some reason ->
        after.pending ≠ [] ∧
          IsTruthful config watchdog before after reason) ∧
      (after.result.isExhaustive = true ↔ after.result.unexplored = []) ∧
      (after.result.unexplored = [] ↔ after.result.truncation = none) := by
  intro start before outcome after
  have config_eq : before.config = config :=
    (withinLimit_moments program config watchdog names calls).2.config_eq
  have watchdog_eq : before.watchdog = watchdog :=
    watchdog_afterCalls program config watchdog names calls
  obtain ⟨momentsWithin, afterWithin⟩ :=
    withinLimit_moments program config watchdog names (calls + 1)
  have ended := before.firstTurn.ended_complete
  have finished_iff : outcome = none ↔ after.pending = [] :=
    before.execute_eq_none_iff
  have remembered : after.truncation = outcome :=
    @Call.truncation_complete before.firstTurn rfl
  have stopped_iff : after.pending = [] ↔ after.truncation = none := by
    rw [remembered]
    exact finished_iff.symm
  refine ⟨?_, ?_, finished_iff, remembered, ?_, ?_, stopped_iff⟩
  · rw [← config_eq]
    exact ended.totalSteps_le
  · have createdWithin := withinLimit_create program config watchdog names
    exact List.forall_mem_cons.mpr ⟨createdWithin.terminalCount_le,
      List.forall_mem_cons.mpr ⟨afterWithin.terminalCount_le,
        fun moment member => (momentsWithin moment member).terminalCount_le⟩⟩
  · intro reason stopped
    refine ⟨ended.pending stopped, ?_⟩
    rw [← watchdog_eq]
    exact isTruthful_execute config_eq afterWithin stopped
  · unfold Exploration.isExhaustive result
    rw [Bool.and_eq_true, Option.isNone_iff_eq_none, List.isEmpty_iff,
      ← stopped_iff]
    exact and_self_iff

/-- The branch, explored for three instructions. -/
def hastyEngine : Engine :=
  create oneBranch { tapeCapacity := 4, maximumTotalSteps := 3 } .idle

/-- The branch, explored within limits that are just large enough. -/
def exactEngine : Engine :=
  create oneBranch
    { tapeCapacity := 4, maximumTotalSteps := 4, maximumTerminalStates := 2 }
    .idle

/-- Each of the four reasons stops a call, and limits that are met exactly do
not. -/
theorem stops_are_truthful_oneBranch :
    (crowdedEngine.execute.1 = some (.liveStateLimit 1) ∧
        1 < crowdedEngine.execute.2.pending.length) ∧
      (fullEngine.execute.1 = some (.terminalStateLimit 1) ∧
        fullEngine.execute.2.terminalCount = 1) ∧
      (hastyEngine.execute.1 = some (.stepLimit 3) ∧
        hastyEngine.execute.2.statistics.totalSteps = 3) ∧
      (restlessEngine.execute.1 = some .stoppedByWatchdog ∧
        ∃ question, restlessEngine.execute.2.polls = question + 1 ∧
          restless.shouldStop question = true) ∧
      exactEngine.execute.1 = none ∧
      exactEngine.execute.2.terminalCount = 2 ∧
      exactEngine.execute.2.result.isExhaustive = true := by
  have fullStops : fullEngine.execute.1 = some (.terminalStateLimit 1) := by
    rw [execute_eq_complete]
    iterate 2 rw [complete_of_next rfl]
    exact congrArg Prod.fst (complete_of_truncated rfl)
  have hastyStops : hastyEngine.execute.1 = some (.stepLimit 3) := by
    rw [execute_eq_complete]
    iterate 3 rw [complete_of_next rfl]
    exact congrArg Prod.fst (complete_of_truncated rfl)
  have restlessStops : restlessEngine.execute.1 = some .stoppedByWatchdog :=
    congrArg Prod.fst (complete_of_truncated rfl)
  have exactEnds : exactEngine.execute.1 = none ∧
      exactEngine.execute.2.terminalCount = 2 := by
    rw [execute_eq_complete]
    iterate 3 rw [complete_of_next rfl]
    rw [complete_of_finished rfl]
    exact ⟨rfl, rfl⟩
  obtain ⟨-, -, -, -, crowded, -⟩ := stops_are_truthful oneBranch
    { tapeCapacity := 4, maximumLiveStates := 1 } .idle (.counting 0) 0
  obtain ⟨-, -, -, -, full, -⟩ := stops_are_truthful oneBranch
    { tapeCapacity := 4, maximumTerminalStates := 1 } .idle (.counting 0) 0
  obtain ⟨-, -, -, -, hasty, -⟩ := stops_are_truthful oneBranch
    { tapeCapacity := 4, maximumTotalSteps := 3 } .idle (.counting 0) 0
  obtain ⟨-, -, -, -, interrupted, -⟩ := stops_are_truthful twoBranches
    { tapeCapacity := 4 } restless (.counting 0) 0
  obtain ⟨-, -, finished_iff, -, -, exhaustive_iff, -⟩ :=
    stops_are_truthful oneBranch
      { tapeCapacity := 4, maximumTotalSteps := 4, maximumTerminalStates := 2 }
      .idle (.counting 0) 0
  obtain ⟨question, -, polls_eq, answer⟩ := (interrupted _ restlessStops).2
  exact ⟨⟨execute_crowdedEngine, (crowded _ execute_crowdedEngine).2.2⟩,
    ⟨fullStops, (full _ fullStops).2.2⟩, ⟨hastyStops, (hasty _ hastyStops).2.2⟩,
    ⟨restlessStops, question, polls_eq, answer⟩, exactEnds.1, exactEnds.2,
    exhaustive_iff.mpr (finished_iff.mp exactEnds.1)⟩

end Engine
end SymbolicTape
