import SymbolicTape.Proofs.Simulation
import SymbolicTape.Proofs.Turns

/-!
# Programs without reads

A program that reads nothing has one run.  All values on its tape are known
bytes, so that every loop test is decided and every byte can be written, and an
exploration follows one path, which never splits.  The machine goes the same way
and faults where the path faults.

An exploration is therefore the run of the machine, cut into slices: it ends one
path after as many instructions as the machine executes, or it meets the step
limit if the machine needs more.
-/

namespace SymbolicTape

/-! ## Known states -/

namespace Value

theorem isSymbolic_canonicalize
    {value : Value}
    (known : value.isSymbolic = false) :
    value.canonicalize.isSymbolic = false := by
  cases value with
  | concrete byte => rfl
  | symbolic term => cases known

/-- A known byte decides the test for zero. -/
theorem zeroTest_of_known
    {value : Value}
    (known : value.isSymbolic = false) :
    value.zeroTest = .zero ∨ value.zeroTest = .nonZero := by
  cases value with
  | concrete byte => exact ite_eq_or_eq (byte = 0) ZeroTest.zero .nonZero
  | symbolic term => cases known

theorem concrete?_of_known
    (assignment : Assignment)
    {value : Value}
    (known : value.isSymbolic = false) :
    value.concrete? = some (value.eval assignment) := by
  cases value with
  | concrete byte => rfl
  | symbolic term => cases known

theorem mapM_concrete?_of_known
    (assignment : Assignment)
    {values : List Value}
    (known : ∀ value ∈ values, value.isSymbolic = false) :
    values.mapM concrete? = some (values.map (eval assignment)) := by
  induction values with
  | nil => rfl
  | cons value values inductionHypothesis =>
      have valueKnown := known value List.mem_cons_self
      have othersKnown := fun other member =>
        known other (List.mem_cons_of_mem value member)
      rw [List.mapM_cons, concrete?_of_known assignment valueKnown,
        inductionHypothesis othersKnown]
      rfl

end Value

namespace State

/-- A state in which nothing depends on the input. -/
structure Known (state : State) : Prop where
  cells : ∀ index, (state.tape.cell index).isSymbolic = false
  output : ∀ value ∈ state.output, value.isSymbolic = false
  constraint : state.constraint = .trivial

theorem known_initial (capacity : Nat) : (State.initial capacity).Known := by
  refine ⟨?_, nofun, rfl⟩
  intro index
  simp [Tape.cell, State.initial, Tape.blank, Tape.blankPage, Value.zero,
    Value.isSymbolic]

theorem Known.countStep
    {state : State}
    (known : state.Known) :
    state.countStep.Known :=
  ⟨known.cells, known.output, known.constraint⟩

theorem Known.get
    {state : State}
    {value : Value}
    (known : state.Known)
    (got : state.tape.get state.pointer = .ok value) :
    value.isSymbolic = false := by
  unfold Tape.get at got
  cases found : state.tape.index? state.pointer with
  | error fault =>
      rw [found] at got
      cases got
  | ok index =>
      rw [found] at got
      cases got
      exact known.cells index

/-- No assignment can contradict a known state. -/
theorem Known.satisfied
    {state : State}
    (known : state.Known)
    (assignment : Assignment) :
    state.constraint.holds assignment = true := by
  rw [known.constraint, Constraint.holds_trivial]

/-- What a known state has written are bytes. -/
theorem Known.outputBytes?_eq
    {state : State}
    (known : state.Known)
    (assignment : Assignment) :
    state.outputBytes? = some (state.output.map (Value.eval assignment)) := by
  unfold outputBytes?
  rw [Array.mapM_eq_mapM_toList, Value.mapM_concrete?_of_known assignment
    fun value member => known.output value (Array.mem_toList_iff.mp member),
    ← Array.toList_map]
  rfl

end State

/-- A known state goes on with known values, or it faults as the machine does,
but it never splits. -/
inductive Effect.Settles (result : Except Fault Machine) : Effect -> Prop
  | next {after : State} (known : after.Known) : Settles result (.next after)
  | fault
      {state : State}
      {reason : Fault}
      (faults : result = .error reason) :
      Settles result (.fault state reason)

namespace State

section Settles

variable {program : Program} {input : InputStream} {assignment : Assignment}

/-- A known value is stored in a known state. -/
theorem Known.store
    {state : State}
    (known : state.Known)
    (index : Fin state.tape.capacity)
    {value : Value}
    (valueKnown : value.isSymbolic = false) :
    { state with tape := state.tape.store index value }.Known := by
  refine ⟨?_, known.output, known.constraint⟩
  intro other
  have stored := Tape.cell_store state.tape index other value
  refine (congrArg Value.isSymbolic stored).trans ?_
  split
  · exact Value.isSymbolic_canonicalize valueKnown
  · exact known.cells other

theorem Known.settles_changeCell
    {change : Value -> Value}
    {result : Except Fault Machine}
    (keepsKnown : ∀ value : Value,
      (change value).isSymbolic = value.isSymbolic)
    {state : State}
    (known : state.Known)
    (simulates : (state.changeCell change).Simulates assignment result) :
    (state.changeCell change).Settles result := by
  unfold changeCell at simulates ⊢
  cases found : state.tape.index? state.pointer with
  | error fault =>
      rw [found] at simulates
      exact .fault (simulates (Tape.isUnconditional_of_index? found))
  | ok index =>
      have stored := known.store index
        ((keepsKnown _).trans (known.cells index))
      exact .next ⟨stored.cells, stored.output, stored.constraint⟩

theorem Known.settles_testAtEnter
    {state : State}
    (known : state.Known) :
    (state.testAtEnter program).Settles
      ((state.concretize assignment).execute program input .loopEnter) := by
  have simulates := simulates_testAtEnter program input assignment state
  unfold testAtEnter at simulates ⊢
  cases got : state.tape.get state.pointer with
  | error fault =>
      rw [got] at simulates
      exact .fault (simulates (Tape.isUnconditional_of_get got))
  | ok value =>
      dsimp only
      rcases Value.zeroTest_of_known (known.get got) with tested | tested
      · rw [tested]
        dsimp only
        cases exit_eq : program.matchingExit? state.instructionPointer with
        | some exit =>
            exact .next ⟨known.cells, known.output, known.constraint⟩
        | none =>
            -- The machine is at the loop as well and finds no exit either.
            have isZero := Value.eval_eq_zero_of_zeroTest assignment tested
            apply Effect.Settles.fault
            simp only [Machine.execute, concretize]
            rw [Tape.get_concretize, got]
            simp only [Except.map, bind, Except.bind]
            rw [if_pos isZero, exit_eq]
            rfl
      · rw [tested]
        exact .next ⟨known.cells, known.output, known.constraint⟩

theorem Known.settles_testAtExit
    {state : State}
    (known : state.Known) :
    state.testAtExit.Settles
      ((state.concretize assignment).execute program input .loopExit) := by
  have simulates := simulates_testAtExit program input assignment state
  unfold testAtExit at simulates ⊢
  cases stack_eq : state.loopStack with
  | nil =>
      rw [stack_eq] at simulates
      exact .fault (simulates rfl)
  | cons enter outer =>
      rw [stack_eq] at simulates
      dsimp only at simulates ⊢
      cases got : state.tape.get state.pointer with
      | error fault =>
          rw [got] at simulates
          exact .fault (simulates (Tape.isUnconditional_of_get got))
      | ok value =>
          dsimp only
          rcases Value.zeroTest_of_known (known.get got) with tested | tested
          · rw [tested]
            exact .next ⟨known.cells, known.output, known.constraint⟩
          · rw [tested]
            exact .next ⟨known.cells, known.output, known.constraint⟩

theorem Known.settles_writeOutput
    (policy : OutputPolicy)
    {state : State}
    (known : state.Known) :
    (state.writeOutput policy).Settles
      ((state.concretize assignment).execute program input .write) := by
  have simulates := simulates_writeOutput program policy input assignment state
  unfold writeOutput at simulates ⊢
  cases got : state.tape.get state.pointer with
  | error fault =>
      rw [got] at simulates
      exact .fault (simulates (Tape.isUnconditional_of_get got))
  | ok value =>
      have valueKnown := known.get got
      have notRefused : ¬(value.isSymbolic ∧ policy = .rejectSymbolic) := by
        rw [valueKnown]
        exact fun refused => Bool.noConfusion refused.1
      dsimp only
      rw [if_neg notRefused]
      refine .next ⟨known.cells, ?_, known.constraint⟩
      intro written member
      rcases Array.mem_push.mp member with old | rfl
      · exact known.output written old
      · exact valueKnown

/-- Every instruction that is not a read settles what a known state does. -/
theorem Known.settles_execute
    (policy : OutputPolicy)
    (agrees : assignment.Agrees input)
    {opcode : Opcode}
    (notRead : opcode ≠ .read)
    {state : State}
    (known : state.Known) :
    (state.execute program policy opcode).Settles
      ((state.concretize assignment).execute program input opcode) := by
  have simulates := simulates_execute program policy agrees opcode state
  cases opcode with
  | moveRight => exact .next ⟨known.cells, known.output, known.constraint⟩
  | moveLeft => exact .next ⟨known.cells, known.output, known.constraint⟩
  | increment =>
      refine known.settles_changeCell ?_ simulates
      intro value
      cases value <;> rfl
  | decrement =>
      refine known.settles_changeCell ?_ simulates
      intro value
      cases value <;> rfl
  | loopEnter => exact known.settles_testAtEnter
  | loopExit => exact known.settles_testAtExit
  | read => exact absurd rfl notRead
  | write => exact known.settles_writeOutput policy
  | comment character =>
      exact .next ⟨known.cells, known.output, known.constraint⟩

end Settles
end State

/-! ## The one run -/

/-- The machine halts on a finite input after exactly so many instructions, of
which one that faults is the last. -/
def HaltsAfter
    (program : Program)
    (bytes : Array UInt8)
    (bound : TapeBound)
    (count : Nat)
    (result : Except (Located Fault) (Array UInt8)) : Prop :=
  interpret program bytes bound count = some result ∧
    ∀ fewer < count, interpret program bytes bound fewer = none

/-- The machine halts once. -/
theorem HaltsAfter.unique
    {program : Program}
    {bytes : Array UInt8}
    {bound : TapeBound}
    {first second : Nat}
    {one other : Except (Located Fault) (Array UInt8)}
    (left : HaltsAfter program bytes bound first one)
    (right : HaltsAfter program bytes bound second other) :
    first = second ∧ one = other := by
  have notBefore : ¬first < second := by
    intro before
    cases left.1.symm.trans (right.2 first before)
  have notAfter : ¬second < first := by
    intro before
    cases right.1.symm.trans (left.2 second before)
  obtain rfl : first = second := by omega
  exact ⟨rfl, Option.some.inj (left.1.symm.trans right.1)⟩

/-- A machine that has halted stays so under a larger bound. -/
theorem Machine.run_of_le
    {program : Program}
    {input : InputStream}
    {fuel larger : Nat}
    {machine : Machine}
    {result : Except (Located Fault) (Array UInt8)}
    (halted : machine.run program input fuel = some result)
    (atLeast : fuel ≤ larger) :
    machine.run program input larger = some result := by
  induction fuel generalizing machine larger with
  | zero =>
      rw [run.eq_def] at halted ⊢
      cases fetched : program.instruction? machine.instructionPointer with
      | none => simpa only [fetched] using halted
      | some opcode => simp only [fetched, reduceCtorEq] at halted
  | succ fuel inductionHypothesis =>
      obtain ⟨larger, rfl⟩ :=
        Nat.exists_eq_succ_of_ne_zero (Nat.ne_zero_of_lt atLeast)
      rw [run.eq_def] at halted ⊢
      cases fetched : program.instruction? machine.instructionPointer with
      | none => simpa only [fetched] using halted
      | some opcode =>
          simp only [fetched] at halted ⊢
          cases executed : machine.execute program input opcode with
          | error fault => simpa only [executed] using halted
          | ok next =>
              simp only [executed] at halted ⊢
              exact inductionHypothesis halted (Nat.le_of_succ_le_succ atLeast)

namespace State

/-- A known state that the machine gets to. -/
structure Tracked
    (program : Program)
    (bytes : Array UInt8)
    (assignment : Assignment)
    (capacity : Nat)
    (state : State) : Prop where
  known : state.Known
  follows : state.Follows program (.ofBytes bytes) assignment capacity

/-- What a slice of a tracked state comes to. -/
inductive Proceeds
    (program : Program)
    (bytes : Array UInt8)
    (assignment : Assignment)
    (capacity : Nat)
    (state : State) : Slice State -> Prop
  | advanced
      {count : Nat}
      {last : State}
      (tracked : last.Tracked program bytes assignment capacity)
      (steps_eq : last.steps = state.steps + count)
      (notDone : last.isDone program = false) :
      Proceeds program bytes assignment capacity state
        ⟨count, .advanced last⟩
  | done
      {count : Nat}
      {last : State}
      {written : Array UInt8}
      (known : last.Known)
      (output_eq : last.outputBytes? = some written)
      (halts : HaltsAfter program bytes (.fixed capacity)
        (state.steps + count) (.ok written)) :
      Proceeds program bytes assignment capacity state ⟨count, .done last⟩
  | faulted
      {count : Nat}
      {last : State}
      {fault : Located Fault}
      (known : last.Known)
      (halts : HaltsAfter program bytes (.fixed capacity)
        (state.steps + count) (.error fault)) :
      Proceeds program bytes assignment capacity state
        ⟨count, .faulted last fault⟩

section Tracked

variable {program : Program} {policy : OutputPolicy} {bytes : Array UInt8}
variable {assignment : Assignment} {capacity : Nat} {state : State}

theorem Tracked.executed
    (tracked : state.Tracked program bytes assignment capacity) :
    (Machine.initial (.fixed capacity)).after? program (.ofBytes bytes)
        state.steps = some (state.concretize assignment) :=
  tracked.follows (tracked.known.satisfied assignment)

/-- The next instruction settles what a tracked state does. -/
theorem Tracked.settles
    (readFree : .read ∉ program.instructions)
    (agrees : assignment.Agrees (.ofBytes bytes))
    (tracked : state.Tracked program bytes assignment capacity)
    {effect : Effect}
    (effect_eq : state.effect? program policy = some effect) :
    ∃ opcode,
      program.instruction?
          (state.concretize assignment).instructionPointer = some opcode ∧
        effect.Settles ((state.concretize assignment).execute program
          (.ofBytes bytes) opcode) := by
  obtain ⟨opcode, fetched, rfl⟩ := Option.map_eq_some_iff.mp effect_eq
  have notRead : opcode ≠ .read := by
    rintro rfl
    exact readFree (Array.mem_of_getElem? fetched)
  exact ⟨opcode, fetched,
    tracked.known.countStep.settles_execute policy agrees notRead⟩

theorem Tracked.effect
    (readFree : .read ∉ program.instructions)
    (agrees : assignment.Agrees (.ofBytes bytes))
    (tracked : state.Tracked program bytes assignment capacity)
    {effect : Effect}
    (effect_eq : state.effect? program policy = some effect) :
    effect.All (Tracked program bytes assignment capacity) := by
  have follows := tracked.follows.effect agrees effect_eq
  obtain ⟨opcode, -, settles⟩ := tracked.settles readFree agrees effect_eq
  cases settles with
  | next known => exact ⟨known, follows⟩
  | fault faults => trivial

/-- The machine has not halted before a tracked state that goes on. -/
theorem Tracked.interpret_eq_none
    (tracked : state.Tracked program bytes assignment capacity)
    (notDone : state.isDone program = false)
    {fuel : Nat}
    (atMost : fuel ≤ state.steps) :
    interpret program bytes (.fixed capacity) fuel = none := by
  unfold interpret
  rcases Nat.lt_or_eq_of_le atMost with less | rfl
  · exact Machine.run_eq_none_of_after? tracked.executed less
  · have running := Machine.run_of_after? tracked.executed 0
    rw [Nat.add_zero] at running
    rw [running, Machine.run.eq_def]
    cases fetched : program.instruction? state.instructionPointer with
    | some opcode => simp only [concretize, fetched]
    | none =>
        have isDone : state.isDone program = true := by
          rw [← @effect?_eq_none_iff program .recordSymbolic state]
          exact Option.map_eq_none_iff.mpr fetched
        rw [notDone] at isDone
        cases isDone

/-- The machine halts where a tracked state ends. -/
theorem Tracked.haltsAfter_of_isDone
    (tracked : state.Tracked program bytes assignment capacity)
    (isDone : state.isDone program = true) :
    HaltsAfter program bytes (.fixed capacity) state.steps
      (.ok (state.output.map (Value.eval assignment))) :=
  ⟨tracked.follows.run_of_isDone (tracked.known.satisfied assignment) isDone 0,
    fun _ fewer => Machine.run_eq_none_of_after? tracked.executed fewer⟩

/-- The machine halts where a tracked state faults. -/
theorem Tracked.haltsAfter_of_fault
    (readFree : .read ∉ program.instructions)
    (agrees : assignment.Agrees (.ofBytes bytes))
    (tracked : state.Tracked program bytes assignment capacity)
    {after : State}
    {reason : Fault}
    (effect_eq : state.effect? program policy = some (.fault after reason)) :
    HaltsAfter program bytes (.fixed capacity) (state.steps + 1)
      (.error ⟨state.instructionPointer, reason⟩) := by
  obtain ⟨opcode, fetched, settles⟩ :=
    tracked.settles readFree agrees effect_eq
  have notDone : state.isDone program = false := by
    rw [← Bool.not_eq_true, ← @effect?_eq_none_iff program policy, effect_eq]
    nofun
  cases settles with
  | fault faults =>
      refine ⟨tracked.follows.run_of_error
        (tracked.known.satisfied assignment) fetched faults 0, ?_⟩
      intro fewer less
      exact tracked.interpret_eq_none notDone (Nat.le_of_lt_succ less)

/-- A slice of a tracked state goes on as the machine does. -/
theorem Tracked.proceeds
    (readFree : .read ∉ program.instructions)
    (agrees : assignment.Agrees (.ofBytes bytes))
    (policy : OutputPolicy)
    (budget : Nat)
    (tracked : state.Tracked program bytes assignment capacity) :
    state.Proceeds program bytes assignment capacity
      (state.step program policy budget) := by
  have preserved {state : State} {effect : Effect}
      (tracked : state.Tracked program bytes assignment capacity)
      (effect_eq : state.effect? program policy = some effect) :
      effect.All (Tracked program bytes assignment capacity) :=
    tracked.effect readFree agrees effect_eq
  have reaches := reaches_step program policy budget state
  generalize state.step program policy budget = slice at reaches
  cases reaches with
  | advanced runs notDone =>
      exact .advanced (runs.preserves preserved tracked) runs.steps_eq notDone
  | done runs isDone =>
      have lastTracked := runs.preserves preserved tracked
      refine .done lastTracked.known
        (lastTracked.known.outputBytes?_eq assignment) ?_
      rw [← runs.steps_eq]
      exact lastTracked.haltsAfter_of_isDone isDone
  | forked runs effect_eq =>
      obtain ⟨opcode, -, settles⟩ :=
        (runs.preserves preserved tracked).settles readFree agrees effect_eq
      cases settles
  | faulted runs effect_eq =>
      have lastTracked := runs.preserves preserved tracked
      have halts := lastTracked.haltsAfter_of_fault readFree agrees effect_eq
      rw [runs.steps_eq] at halts
      cases extends_of_effect? effect_eq with
      | fault reason => exact .faulted lastTracked.known.countStep halts

end Tracked
end State

/-! ## Explorations -/

namespace Engine

/-- One path has ended, without having met a branch, and it came to a given
result: it was completed and has written these bytes, or it faulted there. -/
def HasSingleEnd
    (engine : Engine) : Except (Located Fault) (Array UInt8) -> Prop
  | .ok written => ∃ path,
      engine.completed = #[path] ∧ engine.faulted = #[] ∧
        path.state.constraint = .trivial ∧
        path.state.outputBytes? = some written
  | .error fault => ∃ path,
      engine.completed = #[] ∧ engine.faulted = #[⟨path, fault⟩] ∧
        path.state.constraint = .trivial

/-- How far the one path of an exploration has got. -/
inductive Stage
    (program : Program)
    (bytes : Array UInt8)
    (assignment : Assignment)
    (capacity : Nat)
    (engine : Engine) : Prop
  | running
      (path : Path)
      (pending : engine.pending = [path])
      (completed : engine.completed = #[])
      (faulted : engine.faulted = #[])
      (tracked : path.state.Tracked program bytes assignment capacity)
      (steps_eq : path.state.steps = engine.statistics.totalSteps)
      (notDone : 0 < engine.statistics.totalSteps ->
        path.state.isDone program = false)
  | ended
      (result : Except (Located Fault) (Array UInt8))
      (pending : engine.pending = [])
      (singleEnd : engine.HasSingleEnd result)
      (halts : HaltsAfter program bytes (.fixed capacity)
        engine.statistics.totalSteps result)

section Stage

variable {program : Program} {bytes : Array UInt8} {assignment : Assignment}
variable {capacity : Nat} {before after : Engine}

theorem HasSingleEnd.rests
    {result : Except (Located Fault) (Array UInt8)}
    (singleEnd : before.HasSingleEnd result)
    (rests : Rests before after) :
    after.HasSingleEnd result := by
  unfold HasSingleEnd at singleEnd ⊢
  rw [rests.completed, rests.faulted]
  exact singleEnd

theorem Stage.rests
    (stage : before.Stage program bytes assignment capacity)
    (rests : Rests before after) :
    after.Stage program bytes assignment capacity := by
  cases stage with
  | running path pending completed faulted tracked steps_eq notDone =>
      rw [← rests.pending] at pending
      rw [← rests.completed] at completed
      rw [← rests.faulted] at faulted
      rw [← rests.statistics] at steps_eq notDone
      exact .running path pending completed faulted tracked steps_eq notDone
  | ended result pending singleEnd halts =>
      rw [← rests.pending] at pending
      rw [← rests.statistics] at halts
      exact .ended result pending (singleEnd.rests rests) halts

/-- A slice of the one path leaves one path. -/
theorem Stage.filed
    {path : Path}
    {rest : Worklist Path}
    (budget : Nat)
    (readFree : .read ∉ program.instructions)
    (agrees : assignment.Agrees (.ofBytes bytes))
    (program_eq : before.program = program)
    (stage : before.Stage program bytes assignment capacity)
    (taken : before.worklist.toList.Perm (path :: rest.toList))
    (filed : Filed before rest (before.runSlice budget path) after) :
    after.Stage program bytes assignment capacity ∧
      after.statistics.forks = before.statistics.forks := by
  cases stage with
  | ended result pending singleEnd halts =>
      rw [show before.worklist.toList = [] from pending] at taken
      cases taken.length_eq
  | running only pending completed faulted tracked steps_eq notDone =>
      rw [show before.worklist.toList = [only] from pending] at taken
      obtain ⟨rfl, rest_eq⟩ := List.cons.inj (List.perm_singleton.mp taken.symm)
      have proceeds :=
        tracked.proceeds readFree agrees before.config.outputPolicy budget
      unfold runSlice Path.step at filed
      rw [program_eq] at filed
      generalize path.state.step program before.config.outputPolicy budget =
        slice at proceeds filed
      have completed_eq := filed.completed
      have faulted_eq := filed.faulted
      have pending_eq := filed.pending
      have totalSteps_eq := filed.totalSteps
      have forks_eq := filed.forks
      rw [completed] at completed_eq
      rw [faulted] at faulted_eq
      rw [rest_eq, List.append_nil] at pending_eq
      rw [← steps_eq] at totalSteps_eq
      cases proceeds with
      | @advanced count last lastTracked lastSteps_eq lastNotDone =>
          exact ⟨.running { path with state := last }
            (List.perm_singleton.mp pending_eq)
            (Array.toList_inj.mp completed_eq)
            (Array.toList_inj.mp faulted_eq) lastTracked
            (lastSteps_eq.trans totalSteps_eq.symm) fun _ => lastNotDone,
            forks_eq⟩
      | @done count last written known output_eq halts =>
          rw [← totalSteps_eq] at halts
          exact ⟨.ended (.ok written) (List.perm_nil.mp pending_eq)
            ⟨{ path with state := last }, Array.toList_inj.mp completed_eq,
              Array.toList_inj.mp faulted_eq, known.constraint, output_eq⟩
            halts, forks_eq⟩
      | @faulted count last fault known halts =>
          rw [← totalSteps_eq] at halts
          exact ⟨.ended (.error fault) (List.perm_nil.mp pending_eq)
            ⟨{ path with state := last }, Array.toList_inj.mp completed_eq,
              Array.toList_inj.mp faulted_eq, known.constraint⟩
            halts, forks_eq⟩

end Stage

/-- All explorations of a program without reads follow one path. -/
theorem Reached.stage
    {program : Program}
    {config : Config}
    {watchdog : Watchdog}
    {engine : Engine}
    {bytes : Array UInt8}
    {assignment : Assignment}
    (readFree : .read ∉ program.instructions)
    (agrees : assignment.Agrees (.ofBytes bytes))
    (reached : Reached program config watchdog engine) :
    engine.Stage program bytes assignment config.tapeCapacity ∧
      engine.statistics.forks = 0 := by
  refine reached.invariant (fun engine =>
    engine.Stage program bytes assignment config.tapeCapacity ∧
      engine.statistics.forks = 0) ?_ ?_ ?_
  · intro names
    exact ⟨.running (Path.initial names config.tapeCapacity)
      (pending_fresh program config watchdog names) rfl rfl
      ⟨State.known_initial _, State.follows_initial⟩ rfl nofun, rfl⟩
  · rintro before after ⟨stage, noForks⟩ rests
    exact ⟨stage.rests rests, rests.statistics ▸ noForks⟩
  · rintro before path rest after budget program_eq - ⟨stage, noForks⟩ taken
      filed
    obtain ⟨stageAfter, forks_eq⟩ :=
      stage.filed budget readFree agrees program_eq taken filed
    exact ⟨stageAfter, forks_eq.trans noForks⟩

/-- The exploration of a program without reads is the run of the machine, on any
input.  If the machine halts within the step limit, then the exploration ends
after as many instructions, without a fork and with one path, which has come to
the result of the machine.  If it does not, then the exploration has executed as
many instructions as the limit allows and has one path left. -/
theorem readFree_exploration_runs_machine
    {program : Program}
    {config : Config}
    {watchdog : Watchdog}
    {names : Names}
    {outcome : Option Truncation}
    {engine : Engine}
    (readFree : .read ∉ program.instructions)
    (neverStops : ∀ question, watchdog.shouldStop question = false)
    (terminalPositive : 1 ≤ config.maximumTerminalStates)
    (stepsPositive : 1 ≤ config.maximumTotalSteps)
    (executed :
      (create program config watchdog names).execute = (outcome, engine))
    (bytes : Array UInt8) :
    (∀ {count result},
      HaltsAfter program bytes (.fixed config.tapeCapacity) count result ->
        count ≤ config.maximumTotalSteps ->
          outcome = none ∧
            engine.statistics.forks = 0 ∧
            engine.statistics.totalSteps = count ∧
            engine.HasSingleEnd result) ∧
      (interpret program bytes (.fixed config.tapeCapacity)
          config.maximumTotalSteps = none ->
        outcome = some (.stepLimit config.maximumTotalSteps) ∧
          engine.pending.length = 1 ∧
          engine.statistics.totalSteps = config.maximumTotalSteps) := by
  have ended := ended_execute program config watchdog names
  rw [executed] at ended
  have engine_eq : (create program config watchdog names).execute.2 = engine :=
    congrArg Prod.snd executed
  have reached : Reached program config watchdog engine :=
    engine_eq ▸ .executed (.created _)
  obtain ⟨stage, noForks⟩ := reached.stage readFree
    (InputStream.agrees_assignment (.ofBytes bytes))
  cases stage with
  | running path pending completed faulted tracked steps_eq notDone =>
      have noneEnded : engine.terminalCount = 0 := by
        unfold terminalCount
        rw [completed, faulted]
        rfl
      cases outcome with
      | none =>
          have nothing := pending_of_execute executed
          rw [pending] at nothing
          cases nothing
      | some reason =>
          obtain ⟨rfl, spent⟩ := ended.eq_stepLimit neverStops (by omega)
            (by omega)
          have goesOn := notDone (by omega)
          constructor
          · intro count result halts atMost
            have notYet := tracked.interpret_eq_none goesOn
              (show count ≤ path.state.steps by omega)
            cases notYet.symm.trans halts.1
          · intro _
            exact ⟨rfl, congrArg List.length pending, spent⟩
  | ended result pending singleEnd halts =>
      cases outcome with
      | some reason => exact absurd pending (ended.pending rfl)
      | none =>
          constructor
          · intro count other otherHalts atMost
            obtain ⟨rfl, rfl⟩ := otherHalts.unique halts
            exact ⟨rfl, noForks, rfl, singleEnd⟩
          · intro notYet
            have halted := Machine.run_of_le halts.1 ended.totalSteps_le
            cases notYet.symm.trans halted

/-- A loop that counts down, a step off the tape and a write there. -/
def stepsOffTape : Program :=
  ⟨#[.increment, .loopEnter, .decrement, .loopExit, .moveLeft, .write], none⟩

/-- An exploration with a given step limit. -/
def exploreWithin (limit : Nat) : Option Truncation × Engine :=
  (create stepsOffTape
    { tapeCapacity := 1, stepsPerSlice := 4, maximumTotalSteps := limit }
    .idle).execute

/-- The fault at the last instruction that the limit allows is found, and with
one instruction less the path is left in front of it. -/
theorem readFree_exploration_runs_machine_stepsOffTape :
    HaltsAfter stepsOffTape #[] (.fixed 1) 6
        (.error ⟨5, .memoryAccess (-1) 1⟩) ∧
      ((exploreWithin 6).1 = none ∧
        (exploreWithin 6).2.statistics.forks = 0 ∧
        (exploreWithin 6).2.statistics.totalSteps = 6 ∧
        (exploreWithin 6).2.HasSingleEnd
          (.error ⟨5, .memoryAccess (-1) 1⟩)) ∧
      ((exploreWithin 5).1 = some (.stepLimit 5) ∧
        (exploreWithin 5).2.pending.length = 1 ∧
        (exploreWithin 5).2.statistics.totalSteps = 5) := by
  have halts : HaltsAfter stepsOffTape #[] (.fixed 1) 6
      (.error ⟨5, .memoryAccess (-1) 1⟩) :=
    ⟨by rfl, by decide⟩
  have readFree : .read ∉ stepsOffTape.instructions := by simp [stepsOffTape]
  have idleGoesOn (question : Nat) :
      Watchdog.idle.shouldStop question = false := rfl
  refine ⟨halts, ?_, ?_⟩
  · exact (readFree_exploration_runs_machine readFree idleGoesOn (by decide)
      (by decide) rfl #[]).1 halts (by decide)
  · exact (readFree_exploration_runs_machine readFree idleGoesOn (by decide)
      (by decide) rfl #[]).2 (by rfl)

end Engine
end SymbolicTape
