import SymbolicTape.Proofs.Engine

/-!
# Turns of a call

A slice executes no more instructions than its budget.  Only a state that has
used up its budget and is not at the end is cut off; every other slice comes to
the same under any larger budget.

A turn finds nothing to run, stops before it runs a path, or runs one.  Whether
it stops is decided by `Engine.Call.stop?`, and `Engine.Call.complete_induction`
is the induction along the turns of a call.  The main fact of this module is that
early stops are truthful: the reason that a call gives holds of the engine that
it leaves, and no call executes more than its budget.
-/

namespace SymbolicTape

/-! ## Budgets of slices -/

namespace Outcome

/-- Whether a run was cut off by its budget. -/
def isAdvanced : Outcome σ -> Bool
  | .advanced _ => true
  | _ => false

end Outcome

namespace State

section Budgets

variable {program : Program} {policy : OutputPolicy}

/-- A run executes no more instructions than its budget. -/
theorem executed_stepFrom_le (budget executed : Nat) (state : State) :
    (stepFrom program policy budget executed state).executed ≤
      executed + budget := by
  induction budget generalizing executed state with
  | zero => exact Nat.le_refl executed
  | succ budget inductionHypothesis =>
      unfold stepFrom
      split
      · exact Nat.le_add_right executed (budget + 1)
      · dsimp only
        split
        · dsimp only
          omega
        · dsimp only
          omega
        · rename_i next executed_eq
          have atMost := inductionHypothesis (executed + 1) next
          omega

/-- A run that is cut off has used up its budget. -/
theorem executed_stepFrom_of_isAdvanced
    {budget executed : Nat}
    {state : State}
    (cutOff :
      (stepFrom program policy budget executed state).outcome.isAdvanced =
        true) :
    (stepFrom program policy budget executed state).executed =
      executed + budget := by
  induction budget generalizing executed state with
  | zero => rfl
  | succ budget inductionHypothesis =>
      unfold stepFrom at cutOff ⊢
      split at cutOff
      · cases cutOff
      · dsimp only at cutOff ⊢
        split at cutOff
        · cases cutOff
        · cases cutOff
        · rw [inductionHypothesis cutOff]
          omega

/-- A run that is not cut off comes to the same under a larger budget. -/
theorem stepFrom_add_of_not_isAdvanced
    {budget executed : Nat}
    {state : State}
    (ended :
      (stepFrom program policy budget executed state).outcome.isAdvanced =
        false)
    (extra : Nat) :
    stepFrom program policy (budget + extra) executed state =
      stepFrom program policy budget executed state := by
  induction budget generalizing executed state with
  | zero =>
      cases done : state.isDone program with
      | false => simp [stepFrom, done, Outcome.isAdvanced] at ended
      | true =>
          have noInstruction :
              program.instruction? state.instructionPointer = none :=
            Option.map_eq_none_iff.mp
              ((@effect?_eq_none_iff program policy state).mpr done)
          cases extra with
          | zero => rfl
          | succ extra => simp [stepFrom, done, noInstruction]
  | succ budget inductionHypothesis =>
      rw [Nat.add_right_comm]
      unfold stepFrom at ended ⊢
      split at ended
      · rfl
      · dsimp only at ended ⊢
        split at ended
        · rfl
        · rfl
        · exact inductionHypothesis ended

end Budgets
end State

namespace Engine

section Slices

variable {engine : Engine} {path : Path} {budget : Nat}

theorem executed_runSlice_le (engine : Engine) (path : Path) (budget : Nat) :
    (engine.runSlice budget path).executed ≤ budget := by
  have atMost := @State.executed_stepFrom_le engine.program
    engine.config.outputPolicy budget 0 path.state
  rwa [Nat.zero_add] at atMost

theorem isAdvanced_runSlice :
    (engine.runSlice budget path).outcome.isAdvanced =
      (path.state.step engine.program engine.config.outputPolicy
        budget).outcome.isAdvanced := by
  unfold runSlice Path.step
  dsimp only
  cases (path.state.step engine.program engine.config.outputPolicy
    budget).outcome <;> rfl

/-- A slice that is cut off has used up its budget. -/
theorem executed_runSlice_of_isAdvanced
    (cutOff : (engine.runSlice budget path).outcome.isAdvanced = true) :
    (engine.runSlice budget path).executed = budget := by
  rw [isAdvanced_runSlice] at cutOff
  have used := State.executed_stepFrom_of_isAdvanced cutOff
  rwa [Nat.zero_add] at used

/-- A slice that is not cut off comes to the same under a larger budget. -/
theorem runSlice_of_le
    {larger : Nat}
    (ended : (engine.runSlice budget path).outcome.isAdvanced = false)
    (atLeast : budget ≤ larger) :
    engine.runSlice larger path = engine.runSlice budget path := by
  obtain ⟨extra, rfl⟩ := Nat.exists_eq_add_of_le atLeast
  rw [isAdvanced_runSlice] at ended
  have step_eq := State.stepFrom_add_of_not_isAdvanced ended extra
  unfold runSlice Path.step State.step
  rw [step_eq]

end Slices

/-! ## Turns -/

namespace Call

/-- The engine after the watchdog was asked, if it was time to. -/
def asked (call : Call) : Engine := (poll call.turns call.engine).2

/-- Asking the watchdog counts the question and changes nothing else. -/
theorem asked_eq (call : Call) :
    call.asked =
      { call.engine with polls := call.asked.polls } := by
  unfold asked poll
  split <;> rfl

theorem worklist_asked (call : Call) :
    call.asked.worklist = call.engine.worklist :=
  worklist_poll call.turns call.engine

/-- The limit that has been reached before a turn runs a path. -/
def limit? (call : Call) : Option Truncation :=
  if call.engine.config.maximumTerminalStates ≤ call.engine.terminalCount then
    some (.terminalStateLimit call.engine.config.maximumTerminalStates)
  else if call.remaining = 0 then
    some (.stepLimit call.engine.config.maximumTotalSteps)
  else
    none

theorem limit?_eq_none_iff {call : Call} :
    call.limit? = none ↔
      call.engine.terminalCount < call.engine.config.maximumTerminalStates ∧
        call.remaining ≠ 0 := by
  unfold limit?
  split
  · simp only [reduceCtorEq, false_iff]
    omega
  · split
    · simp only [reduceCtorEq, false_iff]
      omega
    · simp only [true_iff]
      omega

theorem limit?_of_remaining_eq_zero
    {call : Call}
    (notFull :
      call.engine.terminalCount < call.engine.config.maximumTerminalStates)
    (spent : call.remaining = 0) :
    call.limit? = some (.stepLimit call.engine.config.maximumTotalSteps) := by
  unfold limit?
  rw [if_neg (Nat.not_le_of_lt notFull), if_pos spent]

/-- Why a turn stops before it runs a path. -/
def stop? (call : Call) : Option Truncation :=
  if (poll call.turns call.engine).1 then
    some .stoppedByWatchdog
  else
    call.limit?

theorem limit?_ne_stoppedByWatchdog (call : Call) :
    call.limit? ≠ some .stoppedByWatchdog := by
  unfold limit?
  split
  · nofun
  · split <;> nofun

/-- Only the watchdog and the limits stop a call. -/
theorem stop?_eq_limit?
    {call : Call}
    (notInterrupted : call.stop? ≠ some .stoppedByWatchdog) :
    call.stop? = call.limit? := by
  unfold stop? at notInterrupted ⊢
  split
  · rename_i stopped
    rw [if_pos stopped] at notInterrupted
    exact absurd rfl notInterrupted
  · rfl

theorem limit?_of_stop?_eq_none
    {call : Call}
    (goesOn : call.stop? = none) :
    call.limit? = none := by
  rw [← stop?_eq_limit?]
  · exact goesOn
  · rw [goesOn]
    nofun

/-- The slice of a path that a turn runs. -/
def slice (call : Call) (path : Path) : Slice Path :=
  call.asked.runSlice (budget call.remaining call.asked) path

/-- The engine after a turn that runs a path. -/
def afterRun (call : Call) (path : Path) (rest : Worklist Path) : Engine :=
  call.asked.afterSlice path rest (call.slice path)

/-- The engine after a turn that stops before it runs a path. -/
def afterStop
    (call : Call)
    (path : Path)
    (rest : Worklist Path)
    (reason : Truncation) : Engine :=
  (call.asked.putBack path rest).truncate reason

/-- The call after a turn that runs a path. -/
def afterTurn (call : Call) (path : Path) (rest : Worklist Path) : Call :=
  ⟨call.afterRun path rest, call.turns + 1,
    call.remaining - (call.slice path).executed⟩

/-- A turn with nothing left to be run. -/
theorem turn_of_take?_eq_none
    {call : Call}
    (nothing : call.engine.worklist.take? = none) :
    call.turn = .finished (call.engine.record
      (.finished call.engine.completed.size call.engine.faulted.size
        call.engine.statistics.totalSteps)) := by
  unfold turn
  dsimp only
  rw [nothing]

section Taken

variable {call : Call} {path : Path} {rest : Worklist Path}

/-- A turn with a path to run. -/
theorem turn_of_take?
    (taken : call.engine.worklist.take? = some (path, rest)) :
    call.turn =
      match call.stop? with
      | some reason => .truncated reason (call.afterStop path rest reason)
      | none =>
          runTurn call.asked call.turns call.remaining path rest := by
  have config_eq : (poll call.turns call.engine).2.config =
      call.engine.config := (rests_poll call.turns call.engine).config
  have count_eq : (poll call.turns call.engine).2.terminalCount =
      call.engine.terminalCount := by
    unfold terminalCount poll
    split <;> rfl
  unfold turn stop? limit? afterStop asked
  dsimp only
  rw [taken]
  dsimp only
  rw [config_eq, count_eq]
  by_cases stopped : (poll call.turns call.engine).1 = true
  · simp only [if_pos stopped]
  by_cases full : call.engine.config.maximumTerminalStates ≤
      call.engine.terminalCount
  · simp only [if_neg stopped, if_pos full]
  by_cases spent : call.remaining = 0
  · simp only [if_neg stopped, if_neg full, if_pos spent]
  · simp only [if_neg stopped, if_neg full, if_neg spent]

/-- A turn that stops puts the path back. -/
theorem turn_of_stop?
    {reason : Truncation}
    (taken : call.engine.worklist.take? = some (path, rest))
    (stops : call.stop? = some reason) :
    call.turn = .truncated reason (call.afterStop path rest reason) := by
  rw [turn_of_take? taken, stops]

/-- A turn that runs a path and after which too many paths wait. -/
theorem turn_of_overflow?
    {reason : Truncation}
    (taken : call.engine.worklist.take? = some (path, rest))
    (goesOn : call.stop? = none)
    (overflows : (call.afterRun path rest).overflow?
      (call.slice path).outcome = some reason) :
    call.turn =
      .truncated reason ((call.afterRun path rest).truncate reason) := by
  rw [turn_of_take? taken, goesOn]
  unfold runTurn
  dsimp only
  unfold afterRun slice at overflows ⊢
  rw [overflows]

/-- A turn that runs a path and leaves the call to go on. -/
theorem turn_of_next
    (taken : call.engine.worklist.take? = some (path, rest))
    (goesOn : call.stop? = none)
    (fits : (call.afterRun path rest).overflow?
      (call.slice path).outcome = none) :
    call.turn = .next (call.afterTurn path rest) := by
  rw [turn_of_take? taken, goesOn]
  unfold runTurn
  dsimp only
  unfold afterTurn afterRun slice at *
  rw [fits]

end Taken

/-- What a turn can come to. -/
@[elab_as_elim]
theorem turn_cases
    {motive : Turn -> Prop}
    (call : Call)
    (finished : call.engine.worklist.take? = none ->
      motive (.finished (call.engine.record
        (.finished call.engine.completed.size call.engine.faulted.size
          call.engine.statistics.totalSteps))))
    (stopped : ∀ {path rest reason},
      call.engine.worklist.take? = some (path, rest) ->
        call.stop? = some reason ->
          motive (.truncated reason (call.afterStop path rest reason)))
    (overflowed : ∀ {path rest reason},
      call.engine.worklist.take? = some (path, rest) ->
        call.stop? = none ->
          (call.afterRun path rest).overflow? (call.slice path).outcome =
              some reason ->
            motive (.truncated reason
              ((call.afterRun path rest).truncate reason)))
    (next : ∀ {path rest},
      call.engine.worklist.take? = some (path, rest) ->
        call.stop? = none ->
          (call.afterRun path rest).overflow? (call.slice path).outcome =
              none ->
            motive (.next (call.afterTurn path rest))) :
    motive call.turn := by
  cases taken : call.engine.worklist.take? with
  | none =>
      rw [turn_of_take?_eq_none taken]
      exact finished taken
  | some entry =>
      obtain ⟨path, rest⟩ := entry
      cases stops : call.stop? with
      | some reason =>
          rw [turn_of_stop? taken stops]
          exact stopped taken stops
      | none =>
          cases overflows : (call.afterRun path rest).overflow?
              (call.slice path).outcome with
          | some reason =>
              rw [turn_of_overflow? taken stops overflows]
              exact overflowed taken stops overflows
          | none =>
              rw [turn_of_next taken stops overflows]
              exact next taken stops overflows

/-- A property of calls and of how they end holds of all calls if it holds of
those that end in their first turn and if a turn that runs a path hands it on. -/
@[elab_as_elim]
theorem complete_induction
    {motive : Call -> Option Truncation × Engine -> Prop}
    (call : Call)
    (finished : ∀ {call : Call},
      call.engine.worklist.take? = none ->
        motive call (none, call.engine.record
          (.finished call.engine.completed.size call.engine.faulted.size
            call.engine.statistics.totalSteps)))
    (stopped : ∀ {call : Call} {path rest reason},
      call.engine.worklist.take? = some (path, rest) ->
        call.stop? = some reason ->
          motive call (some reason, call.afterStop path rest reason))
    (overflowed : ∀ {call : Call} {path rest reason},
      call.engine.worklist.take? = some (path, rest) ->
        call.stop? = none ->
          (call.afterRun path rest).overflow? (call.slice path).outcome =
              some reason ->
            motive call (some reason,
              (call.afterRun path rest).truncate reason))
    (next : ∀ {call : Call} {path rest},
      call.engine.worklist.take? = some (path, rest) ->
        call.stop? = none ->
          (call.afterRun path rest).overflow? (call.slice path).outcome =
              none ->
            motive (call.afterTurn path rest)
                (call.afterTurn path rest).complete ->
              motive call (call.afterTurn path rest).complete) :
    motive call call.complete := by
  -- What a turn comes to is the same in all cases of the induction.
  have turned
      (call : Call)
      (hypothesis : ∀ next, call.turn = .next next ->
        motive next next.complete) :
      motive call call.complete := by
    refine turn_cases (motive := fun turn =>
      call.turn = turn -> motive call call.complete) call ?_ ?_ ?_ ?_ rfl
    · intro nothing turned
      rw [complete_of_finished turned]
      exact finished nothing
    · intro path rest reason taken stops turned
      rw [complete_of_truncated turned]
      exact stopped taken stops
    · intro path rest reason taken goesOn overflows turned
      rw [complete_of_truncated turned]
      exact overflowed taken goesOn overflows
    · intro path rest taken goesOn fits turned
      rw [complete_of_next turned]
      exact next taken goesOn fits (hypothesis _ turned)
  induction call using Call.complete.induct with
  | case1 call engine ended =>
      apply turned
      intro next next_eq
      cases ended.symm.trans next_eq
  | case2 call reason engine ended =>
      apply turned
      intro next next_eq
      cases ended.symm.trans next_eq
  | case3 call next ran inductionHypothesis =>
      apply turned
      intro other next_eq
      cases ran.symm.trans next_eq
      exact inductionHypothesis

/-! ## Early stops -/

/-- The number of instructions that will have been executed, over all calls, when
the budget of this one is used up. -/
def allowance (call : Call) : Nat :=
  call.engine.statistics.totalSteps + call.remaining

theorem executed_slice_le (call : Call) (path : Path) :
    (call.slice path).executed ≤ call.remaining := by
  have atMost := executed_runSlice_le call.asked path
    (budget call.remaining call.asked)
  unfold slice
  unfold budget at atMost ⊢
  omega

/-- What a turn that runs a path files. -/
theorem filed_afterRun (call : Call) (path : Path) (rest : Worklist Path) :
    Filed call.asked rest (call.slice path) (call.afterRun path rest) :=
  filed_afterSlice call.asked path rest (call.slice path)

theorem totalSteps_afterRun
    (call : Call)
    (path : Path)
    (rest : Worklist Path) :
    (call.afterRun path rest).statistics.totalSteps =
      call.engine.statistics.totalSteps + (call.slice path).executed := by
  rw [(call.filed_afterRun path rest).totalSteps, asked_eq]

/-- What is executed in a turn is taken from what remains. -/
theorem allowance_afterTurn
    (call : Call)
    (path : Path)
    (rest : Worklist Path) :
    (call.afterTurn path rest).allowance = call.allowance := by
  have atMost := call.executed_slice_le path
  have totalSteps_eq := call.totalSteps_afterRun path rest
  unfold allowance afterTurn
  dsimp only
  omega

end Call

theorem watchdog_afterSlice
    (engine : Engine)
    (path : Path)
    (rest : Worklist Path)
    (slice : Slice Path) :
    (engine.afterSlice path rest slice).watchdog = engine.watchdog := by
  obtain ⟨executed, outcome⟩ := slice
  cases outcome with
  | forked location zero nonZero =>
      rw [afterSlice_forked]
      rfl
  | _ => rfl

/-- What has to hold of the engine that a call leaves for a reason to stop.  A
call that has used up its budget leaves the engine with as many executed
instructions as its allowance says. -/
def Justifies (engine : Engine) (allowance : Nat) : Truncation -> Prop
  | .liveStateLimit limit =>
      limit = engine.config.maximumLiveStates ∧
        limit < engine.pending.length ∧ 0 < engine.statistics.forks
  | .stepLimit limit =>
      limit = engine.config.maximumTotalSteps ∧
        engine.statistics.totalSteps = allowance
  | .terminalStateLimit limit =>
      limit = engine.config.maximumTerminalStates ∧
        limit ≤ engine.terminalCount
  | .stoppedByWatchdog =>
      ∃ question, engine.polls = question + 1 ∧
        engine.watchdog.shouldStop question = true

/-- Only a fork lets too many paths wait. -/
theorem overflow?_eq_some
    {engine : Engine}
    {outcome : Outcome Path}
    {reason : Truncation}
    (overflows : engine.overflow? outcome = some reason) :
    reason = .liveStateLimit engine.config.maximumLiveStates ∧
      engine.config.maximumLiveStates < engine.pending.length ∧
      outcome.forkCount = 1 := by
  unfold overflow? at overflows
  split at overflows
  · split at overflows
    · rename_i tooMany
      cases overflows
      refine ⟨rfl, ?_, rfl⟩
      unfold pending
      rwa [Worklist.length_toList]
    · cases overflows
  · cases overflows

/-- How a call ends that has a given allowance. -/
structure Ended
    (config : Config)
    (watchdog : Watchdog)
    (allowance : Nat)
    (result : Option Truncation × Engine) : Prop where
  config_eq : result.2.config = config
  watchdog_eq : result.2.watchdog = watchdog
  totalSteps_le : result.2.statistics.totalSteps ≤ allowance
  /-- A call that stops early leaves something to be run. -/
  pending : ∀ {reason}, result.1 = some reason -> result.2.pending ≠ []
  /-- A call that stops early has the reason that it gives. -/
  justified : ∀ {reason}, result.1 = some reason ->
    result.2.Justifies allowance reason

/-- If there is room for the paths that wait and for those that ended, then only
the step limit can have stopped a call that nobody interrupts. -/
theorem Ended.eq_stepLimit
    {config : Config}
    {watchdog : Watchdog}
    {allowance : Nat}
    {reason : Truncation}
    {engine : Engine}
    (ended : Ended config watchdog allowance (some reason, engine))
    (neverStops : ∀ question, watchdog.shouldStop question = false)
    (roomToWait : 0 < engine.statistics.forks ->
      engine.pending.length ≤ config.maximumLiveStates)
    (roomToEnd : engine.terminalCount < config.maximumTerminalStates) :
    reason = .stepLimit config.maximumTotalSteps ∧
      engine.statistics.totalSteps = allowance := by
  have config_eq : engine.config = config := ended.config_eq
  have watchdog_eq : engine.watchdog = watchdog := ended.watchdog_eq
  have justified : engine.Justifies allowance reason := ended.justified rfl
  cases reason with
  | stepLimit limit =>
      obtain ⟨rfl, used⟩ := justified
      rw [config_eq]
      exact ⟨rfl, used⟩
  | liveStateLimit limit =>
      obtain ⟨rfl, tooMany, forked⟩ := justified
      rw [config_eq] at tooMany
      exact absurd (roomToWait forked) (Nat.not_le_of_lt tooMany)
  | terminalStateLimit limit =>
      obtain ⟨rfl, full⟩ := justified
      rw [config_eq] at full
      exact absurd full (Nat.not_le_of_lt roomToEnd)
  | stoppedByWatchdog =>
      obtain ⟨question, -, stops⟩ := justified
      rw [watchdog_eq, neverStops question] at stops
      cases stops

namespace Call

section Justified

variable {call : Call} {path : Path} {rest : Worklist Path}
variable {reason : Truncation}

/-- A turn that is stopped by the watchdog has asked it. -/
theorem asked_of_stoppedByWatchdog
    (stops : call.stop? = some .stoppedByWatchdog) :
    call.asked.polls = call.engine.polls + 1 ∧
      call.engine.watchdog.shouldStop call.engine.polls = true := by
  unfold stop? at stops
  split at stops
  · rename_i stopped
    unfold asked
    unfold poll at stopped ⊢
    split at stopped
    · rename_i isTime
      rw [if_pos isTime]
      exact ⟨rfl, stopped⟩
    · cases stopped
  · exact absurd stops call.limit?_ne_stoppedByWatchdog

/-- Under a watchdog that never stops, only a limit can. -/
theorem stop?_of_neverStops
    (neverStops : ∀ question,
      call.engine.watchdog.shouldStop question = false) :
    call.stop? = call.limit? := by
  apply stop?_eq_limit?
  intro stops
  have answer := (asked_of_stoppedByWatchdog stops).2
  rw [neverStops] at answer
  cases answer

/-- A turn that stops before it runs a path has the reason that it gives. -/
theorem justifies_afterStop (stops : call.stop? = some reason) :
    (call.afterStop path rest reason).Justifies call.allowance reason := by
  by_cases interrupted : reason = .stoppedByWatchdog
  · cases interrupted
    obtain ⟨polls_eq, answer⟩ := asked_of_stoppedByWatchdog stops
    refine ⟨call.engine.polls, polls_eq, ?_⟩
    unfold afterStop
    rw [asked_eq]
    exact answer
  · have limited : call.limit? = some reason := by
      rw [← stop?_eq_limit? fun stopped =>
        interrupted (Option.some.inj (stops.symm.trans stopped))]
      exact stops
    unfold limit? at limited
    split at limited
    · rename_i full
      cases limited
      unfold afterStop
      rw [asked_eq]
      exact ⟨rfl, full⟩
    · split at limited
      · rename_i spent
        cases limited
        unfold afterStop allowance
        rw [asked_eq, spent]
        exact ⟨rfl, rfl⟩
      · cases limited

/-- A turn that stops puts the path back where it was. -/
theorem pending_afterStop
    (taken : call.engine.worklist.take? = some (path, rest)) :
    (call.afterStop path rest reason).pending = call.engine.pending :=
  Worklist.toList_putBack_of_take? taken

theorem watchdog_afterStop : (call.afterStop path rest reason).watchdog =
    call.engine.watchdog := by
  unfold afterStop
  rw [asked_eq]
  rfl

theorem config_afterRun : (call.afterRun path rest).config =
    call.engine.config := by
  rw [(call.filed_afterRun path rest).config, asked_eq]

theorem watchdog_afterRun : (call.afterRun path rest).watchdog =
    call.engine.watchdog := by
  unfold afterRun
  rw [watchdog_afterSlice, asked_eq]

end Justified

/-- A call that stops before it runs a path. -/
theorem ended_afterStop
    {call : Call}
    {path : Path}
    {rest : Worklist Path}
    {reason : Truncation}
    (taken : call.engine.worklist.take? = some (path, rest))
    (stops : call.stop? = some reason) :
    Ended call.engine.config call.engine.watchdog call.allowance
      (some reason, call.afterStop path rest reason) := by
  refine ⟨?_, watchdog_afterStop, ?_, ?_, ?_⟩
  · unfold afterStop
    rw [asked_eq]
    rfl
  · unfold afterStop
    rw [asked_eq]
    exact Nat.le_add_right _ _
  · intro _ _
    rw [pending_afterStop taken]
    exact Worklist.toList_ne_nil_of_take? taken
  · rintro _ same
    cases same
    exact justifies_afterStop stops

/-- A call that stops because too many paths wait. -/
theorem ended_of_overflow?
    {call : Call}
    {path : Path}
    {rest : Worklist Path}
    {reason : Truncation}
    (overflows : (call.afterRun path rest).overflow?
      (call.slice path).outcome = some reason) :
    Ended call.engine.config call.engine.watchdog call.allowance
      (some reason, (call.afterRun path rest).truncate reason) := by
  obtain ⟨rfl, tooMany, isFork⟩ := overflow?_eq_some overflows
  have forks_eq := (call.filed_afterRun path rest).forks
  rw [isFork] at forks_eq
  have totalSteps_eq := call.totalSteps_afterRun path rest
  have atMost := call.executed_slice_le path
  have config_eq := @config_afterRun call path rest
  have watchdog_eq := @watchdog_afterRun call path rest
  generalize call.afterRun path rest = after at *
  refine ⟨config_eq, watchdog_eq, ?_, ?_, ?_⟩
  · unfold allowance
    exact totalSteps_eq.trans_le (Nat.add_le_add_left atMost _)
  · intro _ _
    exact List.ne_nil_of_length_pos (Nat.zero_lt_of_lt tooMany)
  · rintro _ same
    cases same
    exact ⟨rfl, tooMany, forks_eq ▸ Nat.succ_pos _⟩

/-- No call executes more than its budget, and early stops are truthful. -/
theorem ended_complete (call : Call) :
    Ended call.engine.config call.engine.watchdog call.allowance
      call.complete := by
  refine complete_induction call ?_ ?_ ?_ ?_
  · intro call nothing
    exact ⟨rfl, rfl, Nat.le_add_right _ _, nofun, nofun⟩
  · intro call path rest reason taken stops
    exact ended_afterStop taken stops
  · intro call path rest reason taken goesOn overflows
    exact ended_of_overflow? overflows
  · intro call path rest taken goesOn fits ended
    rw [allowance_afterTurn] at ended
    exact ⟨ended.config_eq.trans config_afterRun,
      ended.watchdog_eq.trans watchdog_afterRun, ended.totalSteps_le,
      ended.pending, ended.justified⟩

end Call

theorem watchdog_create
    (program : Program)
    (config : Config)
    (watchdog : Watchdog)
    (names : Names) :
    (create program config watchdog names).watchdog = watchdog := by
  unfold create
  dsimp only
  split <;> rfl

/-- The first call of an engine may execute as many instructions as the limit
says. -/
theorem allowance_create
    (program : Program)
    (config : Config)
    (watchdog : Watchdog)
    (names : Names) :
    (create program config watchdog names).firstTurn.allowance =
      config.maximumTotalSteps := by
  have created := rests_create program config watchdog names
  have config_eq : (create program config watchdog names).config = config :=
    created.config
  have totalSteps_eq :
      (create program config watchdog names).statistics.totalSteps = 0 :=
    congrArg Statistics.totalSteps created.statistics
  unfold Call.allowance firstTurn
  dsimp only [record]
  rw [totalSteps_eq, config_eq, Nat.zero_add]

/-- How the first call of an engine ends. -/
theorem ended_execute
    (program : Program)
    (config : Config)
    (watchdog : Watchdog)
    (names : Names) :
    Ended config watchdog config.maximumTotalSteps
      (create program config watchdog names).execute := by
  have ended := (create program config watchdog names).firstTurn.ended_complete
  rw [← execute_eq_complete, allowance_create] at ended
  exact ⟨ended.config_eq.trans
      (rests_create program config watchdog names).config,
    ended.watchdog_eq.trans (watchdog_create program config watchdog names),
    ended.totalSteps_le, ended.pending, ended.justified⟩

end Engine
end SymbolicTape
