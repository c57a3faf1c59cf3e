import SymbolicTape.Proofs.Survey
import SymbolicTape.Proofs.Turns

/-!
# Interruptions leave no trace

A watchdog may stop an exploration in front of any slice, and a further call
goes on from there.  The path that was about to run is put back where it was
taken from, so the exploration with interruptions takes the same turns as the
one without, and both end in the same way with the same work done.

The two explorations are compared turn by turn.  The interrupted one has a fresh
budget after every interruption, so it never has less left than the undisturbed
one.  A slice that is cut off by the smaller of the two budgets uses it up, and
the undisturbed exploration meets its step limit in the next turn; any other
slice is the same under both budgets.
-/

namespace SymbolicTape

/-! ## Rows that cannot be told apart -/

namespace Worklist

/-- Two worklists with the same row and the same strategy.  The row may be cut
into halves at different places. -/
structure SameRow (first second : Worklist α) : Prop where
  strategy : first.strategy = second.strategy
  toList : first.toList = second.toList

section SameRow

variable {first second : Worklist α}

theorem SameRow.refl (worklist : Worklist α) : worklist.SameRow worklist :=
  ⟨rfl, rfl⟩

theorem SameRow.symm (same : first.SameRow second) : second.SameRow first :=
  ⟨same.strategy.symm, same.toList.symm⟩

theorem SameRow.trans
    {third : Worklist α}
    (left : first.SameRow second)
    (right : second.SameRow third) :
    first.SameRow third :=
  ⟨left.strategy.trans right.strategy, left.toList.trans right.toList⟩

theorem SameRow.size (same : first.SameRow second) :
    first.size = second.size := by
  rw [← length_toList, ← length_toList, same.toList]

theorem SameRow.take?_eq_none
    (same : first.SameRow second)
    (nothing : second.take? = none) :
    first.take? = none := by
  cases taken : first.take? with
  | none => rfl
  | some entry =>
      have empty := toList_of_take?_eq_none nothing
      exact absurd (same.toList.trans empty) (toList_ne_nil_of_take? taken)

/-- The same entry is next in both, and the rows behind it are the same. -/
theorem SameRow.take?
    {entry : α}
    {rest : Worklist α}
    (same : first.SameRow second)
    (taken : second.take? = some (entry, rest)) :
    ∃ other, first.take? = some (entry, other) ∧ other.SameRow rest := by
  cases alsoTaken : first.take? with
  | none =>
      have empty := toList_of_take?_eq_none alsoTaken
      exact absurd (same.toList.symm.trans empty) (toList_ne_nil_of_take? taken)
  | some pair =>
      obtain ⟨next, other⟩ := pair
      have strategy_eq : other.strategy = rest.strategy := by
        rw [strategy_of_take? alsoTaken, strategy_of_take? taken, same.strategy]
      unfold Worklist.take? at taken alsoTaken
      rw [same.strategy] at alsoTaken
      have row_eq := same.toList
      split at taken
      · rename_i deep
        rw [deep] at alsoTaken
        rw [toList_of_popBack? alsoTaken, toList_of_popBack? taken] at row_eq
        obtain ⟨others_eq, entries_eq⟩ := List.append_inj' row_eq rfl
        cases entries_eq
        exact ⟨other, rfl, strategy_eq, others_eq⟩
      · rename_i broad
        rw [broad] at alsoTaken
        rw [toList_of_popFront? alsoTaken, toList_of_popFront? taken] at row_eq
        obtain ⟨rfl, others_eq⟩ := List.cons.inj row_eq
        exact ⟨other, rfl, strategy_eq, others_eq⟩

/-- An entry that is put back makes the row what it was. -/
theorem sameRow_putBack
    {worklist rest : Worklist α}
    {entry : α}
    (taken : worklist.take? = some (entry, rest)) :
    (rest.putBack entry).SameRow worklist := by
  refine ⟨?_, toList_putBack_of_take? taken⟩
  rw [← strategy_of_take? taken]
  unfold putBack
  split <;> rfl

theorem SameRow.push (same : first.SameRow second) (entry : α) :
    (first.push entry).SameRow (second.push entry) := by
  refine ⟨same.strategy, ?_⟩
  rw [toList_push, toList_push, same.toList]

theorem SameRow.pushSides
    (same : first.SameRow second)
    (zero nonZero : Option α) :
    (first.pushSides zero nonZero).SameRow (second.pushSides zero nonZero) := by
  cases zero with
  | none =>
      cases nonZero with
      | none => exact same
      | some nonZero => exact same.push nonZero
  | some zero =>
      cases nonZero with
      | none => exact same.push zero
      | some nonZero =>
          unfold Worklist.pushSides pushFork
          dsimp only
          rw [same.strategy]
          split
          · exact (same.push nonZero).push zero
          · exact (same.push zero).push nonZero

end SameRow
end Worklist

namespace Engine

/-! ## Engines with the same work -/

/-- Two engines that have done the same and have the same left to do.  They may
have different watchdogs and different journals. -/
structure SameWork (first second : Engine) : Prop where
  program : first.program = second.program
  config : first.config = second.config
  worklist : first.worklist.SameRow second.worklist
  completed : first.completed = second.completed
  faulted : first.faulted = second.faulted
  statistics : first.statistics = second.statistics
  names : first.names = second.names

section SameWork

variable {first second : Engine}

theorem SameWork.symm (same : first.SameWork second) :
    second.SameWork first :=
  ⟨same.program.symm, same.config.symm, same.worklist.symm,
    same.completed.symm, same.faulted.symm, same.statistics.symm,
    same.names.symm⟩

theorem SameWork.trans
    {third : Engine}
    (left : first.SameWork second)
    (right : second.SameWork third) :
    first.SameWork third :=
  ⟨left.program.trans right.program, left.config.trans right.config,
    left.worklist.trans right.worklist, left.completed.trans right.completed,
    left.faulted.trans right.faulted, left.statistics.trans right.statistics,
    left.names.trans right.names⟩

theorem SameWork.terminalCount (same : first.SameWork second) :
    first.terminalCount = second.terminalCount := by
  unfold Engine.terminalCount
  rw [same.completed, same.faulted]

theorem SameWork.runSlice
    (same : first.SameWork second)
    (budget : Nat)
    (path : Path) :
    first.runSlice budget path = second.runSlice budget path := by
  unfold Engine.runSlice
  rw [same.program, same.config, same.names]

theorem SameWork.overflow?
    (same : first.SameWork second)
    (outcome : Outcome Path) :
    first.overflow? outcome = second.overflow? outcome := by
  unfold Engine.overflow?
  rw [same.config, same.worklist.size]

/-- The same slice is filed in the same way. -/
theorem SameWork.afterSlice
    {others rest : Worklist Path}
    (same : first.SameWork second)
    (sameRest : others.SameRow rest)
    (path : Path)
    (slice : Slice Path) :
    (first.afterSlice path others slice).SameWork
      (second.afterSlice path rest slice) := by
  obtain ⟨program_eq, config_eq, row_eq, completed_eq, faulted_eq,
    statistics_eq, named_eq⟩ := same
  obtain ⟨executed, outcome⟩ := slice
  cases outcome with
  | advanced next =>
      refine ⟨program_eq, config_eq, sameRest.push next, completed_eq,
        faulted_eq, ?_, named_eq⟩
      simp only [Engine.afterSlice, file, record, statistics_eq]
  | done next =>
      refine ⟨program_eq, config_eq, sameRest, ?_, faulted_eq, ?_, named_eq⟩
      · simp only [Engine.afterSlice, file, record, completed_eq]
      · simp only [Engine.afterSlice, file, record, statistics_eq]
  | faulted next fault =>
      refine ⟨program_eq, config_eq, sameRest, completed_eq, ?_, ?_, named_eq⟩
      · simp only [Engine.afterSlice, file, record, faulted_eq]
      · simp only [Engine.afterSlice, file, record, statistics_eq]
  | forked location zero nonZero =>
      have pruned_eq (side : Path) :
          first.isPruned side = second.isPruned side := by
        unfold isPruned
        rw [config_eq]
      rw [afterSlice_forked, afterSlice_forked, pruned_eq, pruned_eq]
      have sameSides := sameRest.pushSides
        (if second.isPruned zero then none else some zero)
        (if second.isPruned nonZero then none else some nonZero)
      refine ⟨program_eq, config_eq, sameSides, completed_eq, faulted_eq, ?_,
        ?_⟩
      · simp only [afterFork, statistics_eq, sameSides.size]
      · simp only [afterFork, named_eq]

end SameWork

/-! ## Turns in step -/

theorem sameWork_record (event : Event) (engine : Engine) :
    (engine.record event).SameWork engine :=
  ⟨rfl, rfl, .refl _, rfl, rfl, rfl, rfl⟩

theorem sameWork_truncate (reason : Truncation) (engine : Engine) :
    (engine.truncate reason).SameWork engine :=
  ⟨rfl, rfl, .refl _, rfl, rfl, rfl, rfl⟩

theorem sameWork_firstTurn (engine : Engine) :
    engine.firstTurn.engine.SameWork engine :=
  ⟨rfl, rfl, .refl _, rfl, rfl, rfl, rfl⟩

namespace Call

theorem sameWork_asked (call : Call) : call.asked.SameWork call.engine := by
  rw [asked_eq]
  exact ⟨rfl, rfl, .refl _, rfl, rfl, rfl, rfl⟩

theorem sameWork_afterStop
    {call : Call}
    {path : Path}
    {rest : Worklist Path}
    (taken : call.engine.worklist.take? = some (path, rest))
    (reason : Truncation) :
    (call.afterStop path rest reason).SameWork call.engine := by
  unfold afterStop
  rw [asked_eq]
  exact ⟨rfl, rfl, Worklist.sameRow_putBack taken, rfl, rfl, rfl, rfl⟩

/-- Two calls that go the same way, although the first one may be interrupted.
The first one has no less of its budget left. -/
structure Matched (disturbed steady : Call) : Prop where
  work : disturbed.engine.SameWork steady.engine
  remaining_le : steady.remaining ≤ disturbed.remaining
  remaining_le_maximum :
    steady.remaining ≤ steady.engine.config.maximumTotalSteps
  neverStops : ∀ question, steady.engine.watchdog.shouldStop question = false

end Call

/-- Two turns that lead to the same. -/
inductive Turn.Alike : Turn -> Turn -> Prop
  | finished
      {first second : Engine}
      (work : first.SameWork second) :
      Alike (.finished first) (.finished second)
  | truncated
      {reason : Truncation}
      {first second : Engine}
      (notInterrupted : reason ≠ .stoppedByWatchdog)
      (work : first.SameWork second) :
      Alike (.truncated reason first) (.truncated reason second)
  | next
      {disturbed steady : Call}
      (matched : disturbed.Matched steady) :
      Alike (.next disturbed) (.next steady)

namespace Call

section Matched

variable {disturbed steady : Call} {path : Path} {others rest : Worklist Path}

/-- The engine that an interruption leaves goes on as if nothing had been. -/
theorem Matched.interrupted
    (matched : disturbed.Matched steady)
    (taken : disturbed.engine.worklist.take? = some (path, others)) :
    (disturbed.afterStop path others .stoppedByWatchdog).firstTurn.Matched
      steady := by
  have work :=
    (sameWork_afterStop taken .stoppedByWatchdog).trans matched.work
  refine ⟨(sameWork_firstTurn _).trans work, ?_,
    matched.remaining_le_maximum, matched.neverStops⟩
  exact matched.remaining_le_maximum.trans
    (Nat.le_of_eq (congrArg Config.maximumTotalSteps work.config.symm))

/-- Matched calls have reached the same limit, unless it is the step limit. -/
theorem Matched.limit?
    (matched : disturbed.Matched steady)
    (enough : ∀ limit, steady.limit? ≠ some (.stepLimit limit)) :
    disturbed.limit? = steady.limit? := by
  have atLeast := matched.remaining_le
  unfold Call.limit? at enough ⊢
  rw [matched.work.config, matched.work.terminalCount]
  split
  · rfl
  · rename_i notFull
    rw [if_neg notFull] at enough
    have remains : steady.remaining ≠ 0 := by
      intro spent
      exact enough _ (if_pos spent)
    have alsoRemains : disturbed.remaining ≠ 0 := by omega
    rw [if_neg remains, if_neg alsoRemains]

/-- A slice that is cut off by the budget of the call is the last one before the
step limit. -/
theorem stepLimit_of_cutOff
    (neverStops : ∀ question,
      steady.engine.watchdog.shouldStop question = false)
    (taken : steady.engine.worklist.take? = some (path, rest))
    (goesOn : steady.limit? = none)
    (cutOff : (steady.slice path).outcome.isAdvanced = true)
    (usedUp : (steady.slice path).executed = steady.remaining) :
    ∃ limit, steady.complete.1 = some (.stepLimit limit) := by
  obtain ⟨next, outcome_eq⟩ :
      ∃ next, (steady.slice path).outcome = .advanced next := by
    cases outcome_eq : (steady.slice path).outcome with
    | advanced next => exact ⟨next, rfl⟩
    | done | faulted | forked =>
        rw [outcome_eq] at cutOff
        cases cutOff
  have after_eq : steady.afterRun path rest =
      { steady.afterRun path rest with
        completed := steady.engine.completed
        faulted := steady.engine.faulted
        worklist := rest.push next } := by
    unfold afterRun afterSlice
    rw [outcome_eq, asked_eq]
    rfl
  have turned : steady.turn = .next (steady.afterTurn path rest) := by
    apply turn_of_next taken ((stop?_of_neverStops neverStops).trans goesOn)
    rw [outcome_eq]
    rfl
  rw [complete_of_next turned]
  have goesOnAfter : ∀ question,
      (steady.afterTurn path rest).engine.watchdog.shouldStop question =
        false := by
    have watchdog_eq := @watchdog_afterRun steady path rest
    intro question
    exact (congrArg (Watchdog.shouldStop · question) watchdog_eq).trans
      (neverStops question)
  have notFull :
      (steady.afterTurn path rest).engine.terminalCount <
        (steady.afterTurn path rest).engine.config.maximumTerminalStates := by
    have config_eq := @config_afterRun steady path rest
    have notFullBefore := (limit?_eq_none_iff.mp goesOn).1
    unfold afterTurn
    dsimp only
    rw [config_eq, after_eq]
    exact notFullBefore
  have spent : (steady.afterTurn path rest).remaining = 0 := by
    unfold afterTurn
    dsimp only
    rw [usedUp, Nat.sub_self]
  have stops := (stop?_of_neverStops goesOnAfter).trans
    (limit?_of_remaining_eq_zero notFull spent)
  cases alsoTaken : (steady.afterTurn path rest).engine.worklist.take? with
  | none =>
      have empty := Worklist.toList_of_take?_eq_none alsoTaken
      unfold afterTurn at empty
      dsimp only at empty
      rw [after_eq] at empty
      simp at empty
  | some entry =>
      obtain ⟨other, others⟩ := entry
      rw [complete_of_truncated (turn_of_stop? alsoTaken stops)]
      exact ⟨_, rfl⟩

theorem Matched.asked (matched : disturbed.Matched steady) :
    disturbed.asked.SameWork steady.asked :=
  disturbed.sameWork_asked.trans
    (matched.work.trans steady.sameWork_asked.symm)

/-- The next slice is the same in matched calls, unless the step limit is
near. -/
theorem Matched.slice
    (matched : disturbed.Matched steady)
    (taken : steady.engine.worklist.take? = some (path, rest))
    (goesOn : steady.limit? = none)
    (enough : ∀ limit, steady.complete.1 ≠ some (.stepLimit limit)) :
    disturbed.slice path = steady.slice path := by
  have work := matched.asked
  have atLeast := matched.remaining_le
  unfold Call.slice
  rw [work.runSlice]
  cases cutOff : (steady.slice path).outcome.isAdvanced with
  | false =>
      apply runSlice_of_le cutOff
      unfold budget
      rw [work.config]
      omega
  | true =>
      have executed_eq : (steady.slice path).executed =
          budget steady.remaining steady.asked :=
        executed_runSlice_of_isAdvanced cutOff
      have notUsedUp : (steady.slice path).executed ≠ steady.remaining := by
        intro usedUp
        obtain ⟨limit, stops⟩ := stepLimit_of_cutOff matched.neverStops taken
          goesOn cutOff usedUp
        exact enough limit stops
      have budget_eq : budget disturbed.remaining disturbed.asked =
          budget steady.remaining steady.asked := by
        unfold budget at executed_eq ⊢
        rw [work.config]
        omega
      rw [budget_eq]

theorem Matched.afterTurn
    (matched : disturbed.Matched steady)
    (work : (disturbed.afterRun path others).SameWork
      (steady.afterRun path rest))
    (slice_eq : disturbed.slice path = steady.slice path) :
    (disturbed.afterTurn path others).Matched (steady.afterTurn path rest) := by
  refine ⟨work, ?_, ?_, ?_⟩
  · unfold Call.afterTurn
    dsimp only
    rw [slice_eq]
    exact Nat.sub_le_sub_right matched.remaining_le _
  · unfold Call.afterTurn
    dsimp only
    rw [config_afterRun]
    exact (Nat.sub_le _ _).trans matched.remaining_le_maximum
  · unfold Call.afterTurn
    dsimp only
    rw [watchdog_afterRun]
    exact matched.neverStops

/-- Matched calls that have reached no limit run the same path and lead to the
same. -/
theorem Matched.alike_of_limit?_eq_none
    (matched : disturbed.Matched steady)
    (enough : ∀ limit, steady.complete.1 ≠ some (.stepLimit limit))
    (taken : steady.engine.worklist.take? = some (path, rest))
    (alsoTaken : disturbed.engine.worklist.take? = some (path, others))
    (sameRest : others.SameRow rest)
    (limit : steady.limit? = none)
    (alsoGoesOn : disturbed.stop? = none) :
    Turn.Alike disturbed.turn steady.turn := by
  have goesOn := (stop?_of_neverStops matched.neverStops).trans limit
  have slice_eq := matched.slice taken limit enough
  have work : (disturbed.afterRun path others).SameWork
      (steady.afterRun path rest) := by
    unfold afterRun
    rw [slice_eq]
    exact matched.asked.afterSlice sameRest path (steady.slice path)
  have overflow_eq : (disturbed.afterRun path others).overflow?
        (disturbed.slice path).outcome =
      (steady.afterRun path rest).overflow? (steady.slice path).outcome := by
    rw [slice_eq]
    exact work.overflow? _
  cases overflows : (steady.afterRun path rest).overflow?
      (steady.slice path).outcome with
  | some reason =>
      rw [turn_of_overflow? taken goesOn overflows,
        turn_of_overflow? alsoTaken alsoGoesOn (overflow_eq.trans overflows)]
      refine .truncated ?_ ((sameWork_truncate _ _).trans
        (work.trans (sameWork_truncate _ _).symm))
      rw [(overflow?_eq_some overflows).1]
      nofun
  | none =>
      rw [turn_of_next taken goesOn overflows,
        turn_of_next alsoTaken alsoGoesOn (overflow_eq.trans overflows)]
      exact .next (matched.afterTurn work slice_eq)

/-- Matched calls stay in step: unless the first one is interrupted, both take
turns that lead to the same. -/
theorem Matched.alike_turn
    (matched : disturbed.Matched steady)
    (enough : ∀ limit, steady.complete.1 ≠ some (.stepLimit limit))
    (notInterrupted : ∀ engine,
      disturbed.turn ≠ .truncated .stoppedByWatchdog engine) :
    Turn.Alike disturbed.turn steady.turn := by
  have steadyStop := stop?_of_neverStops matched.neverStops
  cases taken : steady.engine.worklist.take? with
  | none =>
      have nothing := matched.work.worklist.take?_eq_none taken
      rw [turn_of_take?_eq_none taken, turn_of_take?_eq_none nothing]
      exact .finished ((sameWork_record _ _).trans
        (matched.work.trans (sameWork_record _ _).symm))
  | some entry =>
      obtain ⟨path, rest⟩ := entry
      obtain ⟨others, alsoTaken, sameRest⟩ := matched.work.worklist.take? taken
      have enoughNow : ∀ limit, steady.limit? ≠ some (.stepLimit limit) := by
        intro limit reached
        apply enough limit
        rw [complete_of_truncated
          (turn_of_stop? taken (steadyStop.trans reached))]
      have disturbedStop : disturbed.stop? = steady.limit? := by
        rw [← matched.limit? enoughNow]
        apply stop?_eq_limit?
        intro stops
        exact notInterrupted _ (turn_of_stop? alsoTaken stops)
      cases limit : steady.limit? with
      | some reason =>
          rw [turn_of_stop? taken (steadyStop.trans limit),
            turn_of_stop? alsoTaken (disturbedStop.trans limit)]
          refine .truncated ?_ ((sameWork_afterStop alsoTaken reason).trans
            (matched.work.trans (sameWork_afterStop taken reason).symm))
          rintro rfl
          exact steady.limit?_ne_stoppedByWatchdog limit
      | none =>
          exact matched.alike_of_limit?_eq_none enough taken alsoTaken sameRest
            limit (disturbedStop.trans limit)

end Matched
end Call

/-! ## Resuming after interruptions -/

/-- How an exploration ends that is called again whenever the watchdog has
stopped it. -/
inductive Resumed : Engine -> Option Truncation × Engine -> Prop
  | ended
      {engine : Engine}
      (notInterrupted : engine.execute.1 ≠ some .stoppedByWatchdog) :
      Resumed engine engine.execute
  | again
      {engine : Engine}
      {result : Option Truncation × Engine}
      (interrupted : engine.execute.1 = some .stoppedByWatchdog)
      (resumed : Resumed engine.execute.2 result) :
      Resumed engine result

namespace Call

/-- The same, turn by turn and from the middle of a call. -/
inductive Resumed : Call -> Option Truncation × Engine -> Prop
  | finished
      {call : Call}
      {engine : Engine}
      (turned : call.turn = .finished engine) :
      Resumed call (none, engine)
  | truncated
      {call : Call}
      {reason : Truncation}
      {engine : Engine}
      (turned : call.turn = .truncated reason engine)
      (notInterrupted : reason ≠ .stoppedByWatchdog) :
      Resumed call (some reason, engine)
  | interrupted
      {call : Call}
      {engine : Engine}
      {result : Option Truncation × Engine}
      (turned : call.turn = .truncated .stoppedByWatchdog engine)
      (resumed : Resumed engine.firstTurn result) :
      Resumed call result
  | next
      {call after : Call}
      {result : Option Truncation × Engine}
      (turned : call.turn = .next after)
      (resumed : Resumed after result) :
      Resumed call result

end Call

namespace Call

section Outcome

variable {disturbed steady : Call}

/-- What an interruption leaves. -/
theorem interrupted_turn
    {call : Call}
    {engine : Engine}
    (turned : call.turn = .truncated .stoppedByWatchdog engine) :
    ∃ path rest, call.engine.worklist.take? = some (path, rest) ∧
      call.stop? = some .stoppedByWatchdog ∧
      engine = call.afterStop path rest .stoppedByWatchdog := by
  revert turned
  refine turn_cases call ?_ ?_ ?_ ?_
  · nofun
  · intro path rest reason taken stops turned
    obtain ⟨rfl, engine_eq⟩ := Turn.truncated.inj turned
    exact ⟨path, rest, taken, stops, engine_eq.symm⟩
  · intro path rest reason taken goesOn overflows turned
    have reason_eq := (Turn.truncated.inj turned).1
    rw [(overflow?_eq_some overflows).1] at reason_eq
    cases reason_eq
  · nofun

/-- Interruptions change neither how an exploration ends nor the work done. -/
theorem Resumed.sameWork
    {result : Option Truncation × Engine}
    (resumed : disturbed.Resumed result)
    (matched : disturbed.Matched steady)
    (enough : ∀ limit, steady.complete.1 ≠ some (.stepLimit limit)) :
    result.1 = steady.complete.1 ∧ result.2.SameWork steady.complete.2 := by
  induction resumed generalizing steady with
  | finished turned =>
      have alike := matched.alike_turn enough (by
        rw [turned]
        exact fun _ => Turn.noConfusion)
      rw [turned] at alike
      generalize steadyTurned : steady.turn = turn at alike
      cases alike with
      | finished work =>
          rw [complete_of_finished steadyTurned]
          exact ⟨rfl, work⟩
  | truncated turned notInterrupted =>
      have alike := matched.alike_turn enough (by
        rw [turned]
        intro engine same
        exact notInterrupted (Turn.truncated.inj same).1)
      rw [turned] at alike
      generalize steadyTurned : steady.turn = turn at alike
      cases alike with
      | truncated notInterrupted work =>
          rw [complete_of_truncated steadyTurned]
          exact ⟨rfl, work⟩
  | interrupted turned resumed inductionHypothesis =>
      obtain ⟨path, rest, taken, -, rfl⟩ := interrupted_turn turned
      have stillMatched := matched.interrupted taken
      exact inductionHypothesis stillMatched enough
  | next turned resumed inductionHypothesis =>
      have alike := matched.alike_turn enough (by
        rw [turned]
        exact fun _ => Turn.noConfusion)
      rw [turned] at alike
      generalize steadyTurned : steady.turn = turn at alike
      cases alike with
      | next matched =>
          rw [complete_of_next steadyTurned] at enough ⊢
          exact inductionHypothesis matched enough

end Outcome
end Call

/-- The watchdog that is asked before every slice and stops every second
time. -/
def restless : Watchdog :=
  { pollEvery := 1, shouldStop := fun question => question % 2 == 0 }

/-- The two branches under a watchdog that interrupts every slice. -/
def restlessEngine : Engine :=
  create twoBranches { tapeCapacity := 4 } restless

end Engine
end SymbolicTape
