import SymbolicTape.Proofs.Interruption

/-!
# Step limits leave no trace, depth first

Depth first, the worklist is a stack.  A path that is cut off by the budget of
its slice is next again, so a slice of many instructions comes to the same as
many slices of one.  All that such an exploration does is therefore fixed from
the start, one instruction at a time, and the step limit only says how far it
gets.

`Progress` is what is known about a depth-first exploration if slices do not
matter, and `Progress.Moves` is one instruction of it within a limit.  Every
call of the engine is a sequence of such moves within its allowance.  If nothing
but the step limit stops the calls, then the last of them leaves the exploration
where no further move is possible, and that place is unique.
-/

namespace SymbolicTape

/-! ## One instruction at a time -/

namespace State

section OneByOne

variable {program : Program} {policy : OutputPolicy}

/-- Instructions that were executed before only add to the count. -/
theorem stepFrom_eq_add (budget executed : Nat) (state : State) :
    stepFrom program policy budget executed state =
      ⟨executed + (state.step program policy budget).executed,
        (state.step program policy budget).outcome⟩ := by
  unfold step
  induction budget generalizing executed state with
  | zero => rfl
  | succ budget inductionHypothesis =>
      unfold stepFrom
      split
      · rfl
      · dsimp only
        split
        · simp
        · simp
        · rename_i next _
          rw [inductionHypothesis (executed + 1), inductionHypothesis (0 + 1)]
          simp [Nat.add_assoc]

/-- A run that is not over after one instruction goes on from there. -/
theorem step_succ_of_advanced
    {state next : State}
    (first : (state.step program policy 1).outcome = .advanced next)
    (budget : Nat) :
    state.step program policy (budget + 1) =
      ⟨1 + (next.step program policy budget).executed,
        (next.step program policy budget).outcome⟩ := by
  rw [step, stepFrom] at first ⊢
  split at first
  · cases first
  · dsimp only at first ⊢
    split at first
    · cases first
    · cases first
    · rw [stepFrom] at first
      dsimp only at first
      split at first
      · cases first
      · cases first
        exact stepFrom_eq_add budget 1 next

/-- A run that is over after one instruction does not need a larger budget. -/
theorem step_succ_of_not_isAdvanced
    {state : State}
    (ended : (state.step program policy 1).outcome.isAdvanced = false)
    (budget : Nat) :
    state.step program policy (budget + 1) = state.step program policy 1 := by
  rw [Nat.add_comm]
  exact stepFrom_add_of_not_isAdvanced ended budget

end OneByOne
end State

namespace Path

variable {program : Program} {policy : OutputPolicy} {names : Names}
variable {path : Path}

/-- A path that is cut off after one instruction has executed it. -/
theorem step_one_of_advanced
    {next : Path}
    (first : (path.step program policy names 1).outcome = .advanced next) :
    path.step program policy names 1 = ⟨1, .advanced next⟩ := by
  rw [← first]
  unfold step at first ⊢
  dsimp only at first ⊢
  cases outcome_eq : (path.state.step program policy 1).outcome with
  | advanced state =>
      have used := @State.executed_stepFrom_of_isAdvanced program policy 1 0
        path.state (congrArg Outcome.isAdvanced outcome_eq)
      exact congrArg (Slice.mk · _) used
  | done | forked | faulted =>
      rw [outcome_eq] at first
      cases first

theorem step_succ_of_advanced
    {next : Path}
    (first : (path.step program policy names 1).outcome = .advanced next)
    (budget : Nat) :
    path.step program policy names (budget + 1) =
      ⟨1 + (next.step program policy names budget).executed,
        (next.step program policy names budget).outcome⟩ := by
  unfold step at first
  dsimp only at first
  cases outcome_eq : (path.state.step program policy 1).outcome with
  | advanced state =>
      rw [outcome_eq] at first
      cases first
      unfold step
      rw [State.step_succ_of_advanced outcome_eq]
      dsimp only
      cases (state.step program policy budget).outcome <;> rfl
  | done | forked | faulted =>
      rw [outcome_eq] at first
      cases first

theorem step_succ_of_not_isAdvanced
    (ended : (path.step program policy names 1).outcome.isAdvanced = false)
    (budget : Nat) :
    path.step program policy names (budget + 1) =
      path.step program policy names 1 := by
  unfold step at ended ⊢
  dsimp only at ended
  rw [State.step_succ_of_not_isAdvanced]
  cases outcome_eq : (path.state.step program policy 1).outcome with
  | advanced state =>
      rw [outcome_eq] at ended
      cases ended
  | done | forked | faulted => rfl

end Path

/-! ## Progress -/

/-- What decides how an exploration goes on. -/
structure Rules where
  /-- The program. -/
  program : Program
  /-- What happens when a value that depends on the input is written. -/
  policy : OutputPolicy
  /-- Whether sides of a fork without inputs are dropped. -/
  prune : Bool

/-- How far a depth-first exploration has got. -/
structure Progress where
  /-- The paths that are still to be run, the next one first. -/
  stack : List Path
  /-- The paths that reached the end of the program, oldest first. -/
  completed : Array Path
  /-- The paths that faulted, oldest first. -/
  faulted : Array FaultedPath
  /-- The number of instructions executed. -/
  steps : Nat
  /-- The number of forks. -/
  forks : Nat
  /-- The number of sides that were dropped. -/
  drops : Nat
  /-- The largest number of paths that waited after a fork. -/
  peak : Nat
  /-- Where the names of further paths come from. -/
  names : Names

namespace Progress

/-- File what came out of a slice; `rest` is the stack without the path that was
run. -/
def file
    (prune : Bool)
    (rest : List Path)
    (slice : Slice Path)
    (progress : Progress) : Progress :=
  let ran :=
    { progress with
      stack := rest
      steps := progress.steps + slice.executed }
  match slice.outcome with
  | .advanced path => { ran with stack := path :: rest }
  | .done path => { ran with completed := progress.completed.push path }
  | .faulted path fault =>
      { ran with faulted := progress.faulted.push ⟨path, fault⟩ }
  | .forked _ zero nonZero =>
      let sides := [zero, nonZero]
      let stack :=
        sides.filter (fun side => !side.state.isDropped prune) ++ rest
      { ran with
        stack := stack
        forks := progress.forks + 1
        drops := progress.drops
          + (sides.filter fun side => side.state.isDropped prune).length
        peak := max progress.peak stack.length
        names := progress.names.skip 2 }

/-- Run the next path for a slice. -/
def advance
    (rules : Rules)
    (budget : Nat)
    (progress : Progress) : Progress :=
  match progress.stack with
  | [] => progress
  | path :: rest =>
      progress.file rules.prune rest
        (path.step rules.program rules.policy progress.names budget)

theorem advance_of_stack_eq
    {rules : Rules}
    {progress : Progress}
    {path : Path}
    {rest : List Path}
    (stack_eq : progress.stack = path :: rest)
    (budget : Nat) :
    progress.advance rules budget =
      progress.file rules.prune rest
        (path.step rules.program rules.policy progress.names budget) := by
  unfold advance
  rw [stack_eq]

/-- A path that is cut off and goes on is filed as if it had not been cut
off. -/
theorem file_file
    (prune : Bool)
    (rest : List Path)
    (path : Path)
    (first second : Nat)
    (outcome : Outcome Path)
    (progress : Progress) :
    (progress.file prune rest ⟨first, .advanced path⟩).file prune rest
        ⟨second, outcome⟩ =
      progress.file prune rest ⟨first + second, outcome⟩ := by
  cases outcome <;> simp [file, Nat.add_assoc]

/-- One instruction of the next path, within a limit on the number of
instructions. -/
inductive Moves (rules : Rules) (limit : Nat) : Progress -> Progress -> Prop
  | move
      {progress : Progress}
      (waits : progress.stack ≠ [])
      (within : progress.steps < limit) :
      Moves rules limit progress (progress.advance rules 1)

/-- No path waits or the limit is reached. -/
def IsSpent (limit : Nat) (progress : Progress) : Prop :=
  progress.stack = [] ∨ limit ≤ progress.steps

section Moves

open Relation

variable {rules : Rules} {limit : Nat}

/-- A larger limit allows the same moves. -/
theorem Moves.mono
    {larger : Nat}
    {before after : Progress}
    (atMost : limit ≤ larger)
    (moves : Moves rules limit before after) :
    Moves rules larger before after := by
  cases moves with
  | move waits within => exact .move waits (within.trans_le atMost)

/-- Where no path waits or the limit is reached, nothing moves. -/
theorem IsSpent.eq_of_moves
    {before after : Progress}
    (spent : before.IsSpent limit)
    (moves : ReflTransGen (Moves rules limit) before after) :
    after = before := by
  rcases moves.cases_head with rfl | ⟨next, move, -⟩
  · rfl
  · cases move with
    | move waits within =>
        rcases spent with empty | reached
        · exact absurd empty waits
        · exact absurd within (Nat.not_lt_of_le reached)

/-- A slice is over after one instruction, or its path is next again and goes on
with a smaller budget. -/
theorem advance_succ
    (rules : Rules)
    {progress : Progress}
    (waits : progress.stack ≠ [])
    (budget : Nat) :
    progress.advance rules (budget + 1) = progress.advance rules 1 ∨
      ((progress.advance rules 1).stack ≠ [] ∧
        (progress.advance rules 1).steps = progress.steps + 1 ∧
        progress.advance rules (budget + 1) =
          (progress.advance rules 1).advance rules budget) := by
  obtain ⟨path, rest, stack_eq⟩ := List.exists_cons_of_ne_nil waits
  rw [advance_of_stack_eq stack_eq, advance_of_stack_eq stack_eq]
  cases outcome_eq :
      (path.step rules.program rules.policy progress.names 1).outcome with
  | advanced next =>
      right
      rw [Path.step_one_of_advanced outcome_eq]
      refine ⟨List.cons_ne_nil _ _, rfl, ?_⟩
      rw [Path.step_succ_of_advanced outcome_eq]
      exact (file_file rules.prune rest next 1 _ _ progress).symm
  | done | forked | faulted =>
      left
      rw [Path.step_succ_of_not_isAdvanced]
      rw [outcome_eq]
      rfl

/-- A slice is a sequence of moves. -/
theorem moves_advance
    {budget : Nat}
    {progress : Progress}
    (waits : progress.stack ≠ [])
    (within : progress.steps + (budget + 1) ≤ limit) :
    ReflTransGen (Moves rules limit) progress
      (progress.advance rules (budget + 1)) := by
  induction budget generalizing progress with
  | zero => exact .single (.move waits within)
  | succ budget inductionHypothesis =>
      have first : Moves rules limit progress (progress.advance rules 1) :=
        .move waits (by omega)
      rcases advance_succ rules waits (budget + 1) with
        finished | ⟨stillWaits, steps_eq, further⟩
      · rw [finished]
        exact .single first
      · rw [further]
        exact .head first (inductionHypothesis stillWaits (by omega))

end Moves
end Progress

/-! ## Stacks -/

namespace Worklist

/-- Depth first, the sides of a fork are put on top of the stack. -/
theorem reverse_toList_pushSides
    {worklist : Worklist α}
    (deep : worklist.strategy = .depthFirst)
    (first second : Option α) :
    (worklist.pushSides first second).toList.reverse =
      first.toList ++ second.toList ++ worklist.toList.reverse := by
  cases first with
  | none => cases second <;> simp [pushSides]
  | some first =>
      cases second with
      | none => simp [pushSides]
      | some second => simp [pushSides, pushFork, deep]

theorem strategy_pushSides
    (worklist : Worklist α)
    (first second : Option α) :
    (worklist.pushSides first second).strategy = worklist.strategy := by
  cases first with
  | none => cases second <;> rfl
  | some first =>
      cases second with
      | none => rfl
      | some second =>
          unfold pushSides pushFork
          dsimp only
          split <;> rfl

/-- Depth first, the next entry is on top of the stack. -/
theorem reverse_toList_of_take?
    {worklist rest : Worklist α}
    {entry : α}
    (deep : worklist.strategy = .depthFirst)
    (taken : worklist.take? = some (entry, rest)) :
    worklist.toList.reverse = entry :: rest.toList.reverse := by
  unfold take? at taken
  rw [deep] at taken
  rw [toList_of_popBack? taken]
  simp

end Worklist

namespace Engine

/-- The rules of an exploration. -/
def rules (engine : Engine) : Rules :=
  ⟨engine.program, engine.config.outputPolicy, engine.config.pruneInfeasible⟩

/-- How far an exploration has got. -/
def progress (engine : Engine) : Progress where
  stack := engine.pending.reverse
  completed := engine.completed
  faulted := engine.faulted
  steps := engine.statistics.totalSteps
  forks := engine.statistics.forks
  drops := engine.statistics.pruned
  peak := engine.statistics.peakLiveStates
  names := engine.names

section Slices

variable {engine : Engine} {path : Path} {rest : Worklist Path}

/-- What comes out of a slice is filed on the stack. -/
theorem progress_afterSlice
    (deep : rest.strategy = .depthFirst)
    (slice : Slice Path) :
    (engine.afterSlice path rest slice).progress =
      engine.progress.file engine.config.pruneInfeasible rest.toList.reverse
        slice := by
  obtain ⟨executed, outcome⟩ := slice
  cases outcome with
  | advanced next =>
      simp [afterSlice, file, record, progress, pending, Progress.file]
  | done next => rfl
  | faulted next fault => rfl
  | forked location zero nonZero =>
      have stack_eq :
          (rest.pushSides
              (if engine.isPruned zero then none else some zero)
              (if engine.isPruned nonZero then none else some nonZero)
            ).toList.reverse =
          [zero, nonZero].filter (fun side => !engine.isPruned side)
            ++ rest.toList.reverse := by
        rw [Worklist.reverse_toList_pushSides deep, toList_ite_isPruned,
          toList_ite_isPruned, ← List.filter_append]
        rfl
      have drops_eq := engine.length_dropped_forked location zero nonZero
      rw [afterSlice_forked]
      unfold progress pending afterFork Progress.file
      dsimp only
      rw [← Worklist.length_toList, ← List.length_reverse, stack_eq,
        Nat.add_assoc, ← drops_eq]
      rfl

theorem strategy_afterSlice (slice : Slice Path) :
    (engine.afterSlice path rest slice).worklist.strategy =
      rest.strategy := by
  obtain ⟨executed, outcome⟩ := slice
  cases outcome with
  | forked location zero nonZero =>
      rw [afterSlice_forked]
      exact rest.strategy_pushSides _ _
  | advanced | done | faulted => rfl

/-- To run a path for a slice is to run the top of the stack. -/
theorem progress_afterSlice_runSlice
    (deep : engine.worklist.strategy = .depthFirst)
    (taken : engine.worklist.take? = some (path, rest))
    (budget : Nat) :
    (engine.afterSlice path rest (engine.runSlice budget path)).progress =
      engine.progress.advance engine.rules budget := by
  have stack_eq : engine.progress.stack = path :: rest.toList.reverse :=
    Worklist.reverse_toList_of_take? deep taken
  rw [Progress.advance_of_stack_eq stack_eq, progress_afterSlice]
  · rfl
  · rw [Worklist.strategy_of_take? taken, deep]

end Slices

/-! ## Calls as sequences of moves -/

open Relation

/-- A depth-first exploration goes on by moves within a limit. -/
structure Continues (limit : Nat) (before after : Engine) : Prop where
  deep : after.worklist.strategy = .depthFirst
  rules : after.rules = before.rules
  moves : ReflTransGen (Progress.Moves before.rules limit)
    before.progress after.progress

section Continues

variable {limit : Nat} {before after : Engine}

theorem SameWork.rules (same : after.SameWork before) :
    after.rules = before.rules := by
  unfold Engine.rules
  rw [same.program, same.config]

theorem SameWork.progress (same : after.SameWork before) :
    after.progress = before.progress := by
  unfold Engine.progress pending
  rw [same.worklist.toList, same.completed, same.faulted, same.statistics,
    same.names]

/-- To do nothing is to make no move. -/
theorem SameWork.continues
    (same : after.SameWork before)
    (deep : before.worklist.strategy = .depthFirst) :
    Continues limit before after := by
  refine ⟨same.worklist.strategy.trans deep, same.rules, ?_⟩
  rw [same.progress]

theorem Continues.trans
    {middle : Engine}
    (first : Continues limit before middle)
    (second : Continues limit middle after) :
    Continues limit before after := by
  refine ⟨second.deep, second.rules.trans first.rules, ?_⟩
  have moves := second.moves
  rw [first.rules] at moves
  exact first.moves.trans moves

theorem Continues.mono
    {larger : Nat}
    (continues : Continues limit before after)
    (atMost : limit ≤ larger) :
    Continues larger before after :=
  ⟨continues.deep, continues.rules,
    ReflTransGen.mono (fun _ _ => Progress.Moves.mono atMost) _ _
      continues.moves⟩

end Continues

namespace Call

/-- A turn that runs a path makes moves within the allowance of its call. -/
theorem continues_afterRun
    {call : Call}
    {path : Path}
    {rest : Worklist Path}
    (deep : call.engine.worklist.strategy = .depthFirst)
    (taken : call.engine.worklist.take? = some (path, rest))
    (goesOn : call.stop? = none) :
    Continues call.allowance call.engine (call.afterRun path rest) := by
  have asked := call.sameWork_asked
  have alsoDeep := asked.worklist.strategy.trans deep
  have alsoTaken : call.asked.worklist.take? = some (path, rest) := by
    rwa [worklist_asked]
  have remains : call.remaining ≠ 0 :=
    (limit?_eq_none_iff.mp (limit?_of_stop?_eq_none goesOn)).2
  obtain ⟨fewer, budget_eq⟩ :
      ∃ fewer, budget call.remaining call.asked = fewer + 1 := by
    apply Nat.exists_eq_add_one.mpr
    unfold budget
    omega
  have atMost : fewer + 1 ≤ call.remaining := by
    rw [← budget_eq]
    exact Nat.min_le_right _ _
  have filed := call.filed_afterRun path rest
  refine Continues.trans (asked.continues deep) ⟨?_, ?_, ?_⟩
  · unfold afterRun
    rw [strategy_afterSlice, Worklist.strategy_of_take? alsoTaken, alsoDeep]
  · unfold Engine.rules
    rw [filed.program, filed.config]
  · unfold afterRun slice
    rw [progress_afterSlice_runSlice alsoDeep alsoTaken, budget_eq]
    apply Progress.moves_advance
    · have stack_eq : call.asked.progress.stack = path :: rest.toList.reverse :=
        Worklist.reverse_toList_of_take? alsoDeep alsoTaken
      rw [stack_eq]
      exact List.cons_ne_nil _ _
    · rw [asked.progress]
      exact Nat.add_le_add_left atMost _

/-- A call makes moves within its allowance, however it ends. -/
theorem continues_complete
    {call : Call}
    (deep : call.engine.worklist.strategy = .depthFirst) :
    Continues call.allowance call.engine call.complete.2 := by
  revert deep
  refine complete_induction call ?_ ?_ ?_ ?_
  · intro call nothing deep
    exact (sameWork_record _ _).continues deep
  · intro call path rest reason taken stops deep
    exact (sameWork_afterStop taken reason).continues deep
  · intro call path rest reason taken goesOn overflows deep
    have ran := continues_afterRun deep taken goesOn
    exact ran.trans ((sameWork_truncate _ _).continues ran.deep)
  · intro call path rest taken goesOn fits later deep
    have ran := continues_afterRun deep taken goesOn
    have continues := later ran.deep
    rw [allowance_afterTurn] at continues
    exact ran.trans continues

end Call

/-- A call does not end at a limit on the number of paths. -/
def StaysWithin (outcome : Option Truncation) : Prop :=
  ∀ limit, outcome ≠ some (.liveStateLimit limit) ∧
    outcome ≠ some (.terminalStateLimit limit)

section Calls

variable {engine : Engine}

theorem continues_execute (deep : engine.worklist.strategy = .depthFirst) :
    Continues (engine.statistics.totalSteps + engine.config.maximumTotalSteps)
      engine engine.execute.2 := by
  have started : Continues engine.firstTurn.allowance engine
      engine.firstTurn.engine :=
    (sameWork_firstTurn engine).continues deep
  exact started.trans (Call.continues_complete started.deep)

/-- A call that nothing but its step limit stops makes all the moves that it
may. -/
theorem isSpent_execute
    (neverStops : ∀ question, engine.watchdog.shouldStop question = false)
    (within : StaysWithin engine.execute.1) :
    engine.execute.2.progress.IsSpent
      (engine.statistics.totalSteps + engine.config.maximumTotalSteps) := by
  have ended := engine.firstTurn.ended_complete
  rw [← execute_eq_complete] at ended
  cases outcome_eq : engine.execute.1 with
  | none =>
      left
      unfold progress
      rw [pending_of_execute (Prod.ext outcome_eq rfl)]
      rfl
  | some reason =>
      have justified := ended.justified outcome_eq
      cases reason with
      | stepLimit limit => exact .inr (Nat.le_of_eq justified.2.symm)
      | liveStateLimit limit => exact absurd outcome_eq (within limit).1
      | terminalStateLimit limit => exact absurd outcome_eq (within limit).2
      | stoppedByWatchdog =>
          obtain ⟨question, -, answer⟩ := justified
          rw [ended.watchdog_eq] at answer
          cases (neverStops question).symm.trans answer

/-- Where an engine is that has been called a number of times and that nothing
but its step limit stopped. -/
structure Exhausts (engine : Engine) (limit : Nat) (after : Engine) : Prop where
  config : after.config = engine.config
  watchdog : after.watchdog = engine.watchdog
  continues : Continues limit engine after
  steps_le : after.statistics.totalSteps ≤ limit
  spent : after.progress.IsSpent limit

/-- One more call gets further by the step limit, if there is anything left to
be run. -/
theorem Exhausts.execute
    {limit : Nat}
    {after : Engine}
    (exhausts : engine.Exhausts limit after)
    (neverStops : ∀ question, engine.watchdog.shouldStop question = false)
    (within : StaysWithin after.execute.1) :
    engine.Exhausts (limit + engine.config.maximumTotalSteps)
      after.execute.2 := by
  have ended := after.firstTurn.ended_complete
  rw [← execute_eq_complete] at ended
  have steps_le := exhausts.steps_le
  have allowance_le :
      after.statistics.totalSteps + after.config.maximumTotalSteps ≤
        limit + engine.config.maximumTotalSteps := by
    rw [exhausts.config]
    exact Nat.add_le_add_right steps_le _
  have call := continues_execute exhausts.continues.deep
  refine ⟨ended.config_eq.trans exhausts.config,
    ended.watchdog_eq.trans exhausts.watchdog, ?_,
    ended.totalSteps_le.trans allowance_le, ?_⟩
  · exact (exhausts.continues.mono (Nat.le_add_right _ _)).trans
      (call.mono allowance_le)
  -- If the earlier calls left nothing to be run, they may have executed less than
  -- the limit, and then this call moves nothing.
  · rcases exhausts.spent with empty | reached
    · have unmoved := Progress.IsSpent.eq_of_moves (.inl empty) call.moves
      rw [unmoved]
      exact .inl empty
    · have steps_eq : after.statistics.totalSteps = limit :=
        Nat.le_antisymm steps_le reached
      have spent := isSpent_execute
        (fun question => exhausts.watchdog ▸ neverStops question) within
      rwa [steps_eq, exhausts.config] at spent

end Calls

section Created

variable {program : Program} {config : Config} {watchdog : Watchdog}
variable {names : Names}

theorem strategy_create :
    (create program config watchdog names).worklist.strategy =
      config.strategy := by
  unfold create
  dsimp only
  split <;> rfl

theorem progress_create :
    (create program config watchdog names).progress =
      { stack := [Path.initial names config.tapeCapacity]
        completed := #[]
        faulted := #[]
        steps := 0
        forks := 0
        drops := 0
        peak := 1
        names := names.skip 1 } := by
  unfold create
  dsimp only
  split <;> rfl

theorem rules_create :
    (create program config watchdog names).rules =
      ⟨program, config.outputPolicy, config.pruneInfeasible⟩ := by
  have created := rests_create program config watchdog names
  unfold rules
  rw [created.program, created.config]
  rfl

end Created

end Engine
end SymbolicTape
