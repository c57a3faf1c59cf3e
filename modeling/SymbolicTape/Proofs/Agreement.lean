import SymbolicTape.Proofs.Brackets
import SymbolicTape.Proofs.Partition
import SymbolicTape.Proofs.Simulation

/-!
# A finished exploration answers for every input

When an exploration has nothing left to run, the machine halts on every input,
and what it does there can be read off the one path that accepts the input: the
output of a completed path or the fault of a faulted one.

This needs the loops to be matched and symbolic output to be recorded.  The only
faults of a path are then those of the machine, because a loop that may have to
be skipped has an exit and no output is refused.
-/

namespace SymbolicTape

/-! ## Faults of matched programs -/

/-- An instruction that faults does so because of what the machine is doing. -/
def Effect.FaultsWithMachine : Effect -> Prop
  | .fault _ reason => reason.isUnconditional = true
  | _ => True

namespace State

theorem faultsWithMachine_changeCell
    (change : Value -> Value)
    (state : State) :
    (state.changeCell change).FaultsWithMachine := by
  unfold changeCell
  split
  · rename_i fault failed
    exact Tape.isUnconditional_of_index? failed
  · trivial

theorem faultsWithMachine_testAtEnter
    {program : Program}
    {state : State}
    (matched : ∃ exit,
      program.matchingExit? state.instructionPointer = some exit) :
    (state.testAtEnter program).FaultsWithMachine := by
  obtain ⟨exit, exit_eq⟩ := matched
  unfold testAtEnter
  split
  · rename_i fault failed
    exact Tape.isUnconditional_of_get failed
  · rw [exit_eq]
    split <;> trivial

theorem faultsWithMachine_testAtExit (state : State) :
    state.testAtExit.FaultsWithMachine := by
  unfold testAtExit
  split
  · rfl
  · split
    · rename_i fault failed
      exact Tape.isUnconditional_of_get failed
    · split <;> trivial

theorem faultsWithMachine_readInput (state : State) :
    state.readInput.FaultsWithMachine := by
  unfold readInput
  split
  · rename_i fault failed
    exact Tape.isUnconditional_of_index? failed
  · trivial

theorem faultsWithMachine_writeOutput (state : State) :
    (state.writeOutput .recordSymbolic).FaultsWithMachine := by
  unfold writeOutput
  split
  · rename_i fault failed
    exact Tape.isUnconditional_of_get failed
  · split
    · rename_i refused
      cases refused.2
    · trivial

/-- If all loops are matched and symbolic output is recorded, every fault is one
of the machine. -/
theorem isUnconditional_of_effect?
    {program : Program}
    (matched : ∀ {enter}, program.instruction? enter = some .loopEnter ->
      ∃ exit, program.matchingExit? enter = some exit)
    {state after : State}
    {fault : Fault}
    (effect_eq : state.effect? program .recordSymbolic =
      some (.fault after fault)) :
    fault.isUnconditional = true := by
  obtain ⟨opcode, fetched, executed⟩ := Option.map_eq_some_iff.mp effect_eq
  suffices faults : (state.countStep.execute program .recordSymbolic
      opcode).FaultsWithMachine by
    rwa [executed] at faults
  cases opcode with
  | moveRight => trivial
  | moveLeft => trivial
  | increment => exact faultsWithMachine_changeCell _ _
  | decrement => exact faultsWithMachine_changeCell _ _
  | loopEnter => exact faultsWithMachine_testAtEnter (matched fetched)
  | loopExit => exact faultsWithMachine_testAtExit _
  | read => exact faultsWithMachine_readInput _
  | write => exact faultsWithMachine_writeOutput _
  | comment character => trivial

end State

/-! ## Answers of the engine -/

namespace Engine

section Answers

variable (program : Program) (input : InputStream)
variable (assignment : Assignment) (capacity : Nat)

/-- The machine halts with a result as soon as it may execute so many
instructions. -/
def HaltsWith
    (steps : Nat)
    (result : Except (Located Fault) (Array UInt8)) : Prop :=
  ∀ fuel, steps ≤ fuel ->
    (Machine.initial (.fixed capacity)).run program input fuel = some result

/-- Whatever path accepts the assignment, the machine follows it, and it halts
where the path has ended. -/
structure Answers (engine : Engine) : Prop where
  completed : ∀ path ∈ engine.completed.toList,
    path.accepts assignment = true ->
      HaltsWith program input capacity path.state.steps
        (.ok (path.state.output.map (Value.eval assignment)))
  faulted : ∀ entry ∈ engine.faulted.toList,
    entry.path.accepts assignment = true ->
      HaltsWith program input capacity entry.path.state.steps
        (.error entry.fault)
  pending : ∀ path ∈ engine.pending,
    State.Follows program input assignment capacity path.state

end Answers

section Answers

variable {program : Program} {input : InputStream}
variable {assignment : Assignment} {capacity : Nat}

/-- The machine halts where a path that it follows reaches the end. -/
theorem haltsWith_of_isDone
    {state : State}
    (follows : state.Follows program input assignment capacity)
    (satisfied : state.constraint.holds assignment = true)
    (isDone : state.isDone program = true) :
    HaltsWith program input capacity state.steps
      (.ok (state.output.map (Value.eval assignment))) := by
  intro fuel enough
  obtain ⟨extra, rfl⟩ := Nat.exists_eq_add_of_le enough
  exact follows.run_of_isDone satisfied isDone extra

/-- The machine halts where a path that it follows faults. -/
theorem haltsWith_of_fault
    (agrees : assignment.Agrees input)
    {policy : OutputPolicy}
    {state after : State}
    {fault : Fault}
    (follows : state.Follows program input assignment capacity)
    (satisfied : state.constraint.holds assignment = true)
    (effect_eq : state.effect? program policy = some (.fault after fault))
    (unconditional : fault.isUnconditional = true) :
    HaltsWith program input capacity (state.steps + 1)
      (.error ⟨state.instructionPointer, fault⟩) := by
  intro fuel enough
  obtain ⟨extra, rfl⟩ := Nat.exists_eq_add_of_le enough
  rw [Nat.add_assoc, Nat.add_comm 1]
  exact follows.run_of_fault agrees satisfied effect_eq unconditional extra

/-- The machine halts where a slice of a path that it follows reaches the
end. -/
theorem haltsWith_of_mem_completed
    {engine : Engine}
    {path last : Path}
    {budget : Nat}
    (agrees : assignment.Agrees input)
    (follows : path.state.Follows engine.program input assignment capacity)
    (member : last ∈ (engine.runSlice budget path).outcome.completed)
    (accepted : last.accepts assignment = true) :
    HaltsWith engine.program input capacity last.state.steps
      (.ok (last.state.output.map (Value.eval assignment))) := by
  revert member
  refine runSlice_cases budget ?_ ?_ ?_ ?_
  · exact fun _ => nofun
  · intro count ended runs isDone member
    rw [List.mem_singleton.mp member] at accepted ⊢
    exact haltsWith_of_isDone (follows.runs agrees runs) accepted isDone
  · exact fun _ _ => nofun
  · exact fun _ _ => nofun

/-- The machine halts where a slice of a path that it follows faults. -/
theorem haltsWith_of_mem_faultedPaths
    {engine : Engine}
    {path : Path}
    {entry : FaultedPath}
    {budget : Nat}
    (agrees : assignment.Agrees input)
    (matched : ∀ {enter},
      engine.program.instruction? enter = some .loopEnter ->
        ∃ exit, engine.program.matchingExit? enter = some exit)
    (records : engine.config.outputPolicy = .recordSymbolic)
    (follows : path.state.Follows engine.program input assignment capacity)
    (member : entry ∈ (engine.runSlice budget path).outcome.faultedPaths)
    (accepted : entry.path.accepts assignment = true) :
    HaltsWith engine.program input capacity entry.path.state.steps
      (.error entry.fault) := by
  revert member
  refine runSlice_cases budget ?_ ?_ ?_ ?_
  · exact fun _ => nofun
  · exact fun _ _ => nofun
  · exact fun _ _ => nofun
  · intro count last reason runs effect_eq member
    rw [List.mem_singleton.mp member] at accepted ⊢
    have unconditional := State.isUnconditional_of_effect? matched
      (records ▸ effect_eq)
    exact haltsWith_of_fault agrees (follows.runs agrees runs) accepted
      effect_eq unconditional

/-- The machine follows the paths that go on after a slice. -/
theorem follows_of_mem_kept
    {engine : Engine}
    {path next : Path}
    {budget : Nat}
    (agrees : assignment.Agrees input)
    (follows : path.state.Follows engine.program input assignment capacity)
    (member : next ∈ engine.kept (engine.runSlice budget path).outcome) :
    next.state.Follows engine.program input assignment capacity := by
  revert member
  refine runSlice_cases budget ?_ ?_ ?_ ?_
  · intro count last runs member
    rw [List.mem_singleton.mp member]
    exact follows.runs agrees runs
  · exact fun _ _ => nofun
  · intro count last zero nonZero runs effect_eq member
    have sides := (follows.runs agrees runs).effect agrees effect_eq
    have isSide := List.mem_of_mem_filter member
    rcases List.mem_cons.mp isSide with rfl | isSide
    · exact sides.1
    · rw [List.mem_singleton.mp isSide]
      exact sides.2
  · exact fun _ _ => nofun

/-- Filing a slice keeps the answers right. -/
theorem Answers.filed
    {before after : Engine}
    {path : Path}
    {rest : Worklist Path}
    {budget : Nat}
    (agrees : assignment.Agrees input)
    (matched : ∀ {enter},
      before.program.instruction? enter = some .loopEnter ->
        ∃ exit, before.program.matchingExit? enter = some exit)
    (records : before.config.outputPolicy = .recordSymbolic)
    (answers : before.Answers before.program input assignment capacity)
    (taken : before.worklist.toList.Perm (path :: rest.toList))
    (filed : Filed before rest (before.runSlice budget path) after) :
    after.Answers before.program input assignment capacity := by
  have follows := answers.pending path
    (taken.mem_iff.mpr List.mem_cons_self)
  refine ⟨?_, ?_, ?_⟩
  · intro last member
    rw [filed.completed] at member
    rcases List.mem_append.mp member with old | new
    · exact answers.completed last old
    · exact haltsWith_of_mem_completed agrees follows new
  · intro entry member
    rw [filed.faulted] at member
    rcases List.mem_append.mp member with old | new
    · exact answers.faulted entry old
    · exact haltsWith_of_mem_faultedPaths agrees matched records follows new
  · intro next member
    rcases List.mem_append.mp (filed.pending.mem_iff.mp member) with new | old
    · exact follows_of_mem_kept agrees follows new
    · exact answers.pending next
        (taken.mem_iff.mpr (List.mem_cons_of_mem _ old))

/-- The answers of an engine are right after any number of calls. -/
theorem Reached.answers
    {config : Config}
    {watchdog : Watchdog}
    {engine : Engine}
    (agrees : assignment.Agrees input)
    (matched : ∀ {enter}, program.instruction? enter = some .loopEnter ->
      ∃ exit, program.matchingExit? enter = some exit)
    (records : config.outputPolicy = .recordSymbolic)
    (reached : Reached program config watchdog engine) :
    engine.Answers program input assignment config.tapeCapacity := by
  refine reached.invariant
    (fun engine =>
      engine.Answers program input assignment config.tapeCapacity) ?_ ?_ ?_
  · refine fun names => ⟨nofun, nofun, ?_⟩
    intro path member
    rw [pending_fresh] at member
    rw [List.mem_singleton.mp member]
    exact State.follows_initial
  · intro before after answers rests
    refine ⟨?_, ?_, ?_⟩
    · rw [rests.completed]
      exact answers.completed
    · rw [rests.faulted]
      exact answers.faulted
    · rw [rests.pending]
      exact answers.pending
  · intro before path rest after budget program_eq config_eq answers taken
      filed
    subst program_eq config_eq
    exact answers.filed agrees matched records taken filed

end Answers

/-- An assignment is accepted by exactly one ended path of the engine, which
tells after how many instructions the machine halts and with which result. -/
inductive Settles
    (engine : Engine)
    (assignment : Assignment) :
    Nat -> Except (Located Fault) (Array UInt8) -> Prop
  | completed
      {path : Path}
      (accepted :
        engine.completed.toList.filter (Path.accepts assignment) = [path])
      (others : engine.faulted.toList.filter (fun entry =>
        entry.path.accepts assignment) = []) :
      Settles engine assignment path.state.steps
        (.ok (path.state.output.map (Value.eval assignment)))
  | faulted
      {entry : FaultedPath}
      (others :
        engine.completed.toList.filter (Path.accepts assignment) = [])
      (accepted : engine.faulted.toList.filter (fun entry =>
        entry.path.accepts assignment) = [entry]) :
      Settles engine assignment entry.path.state.steps (.error entry.fault)

/-- An engine with right answers and nothing left to run settles every
assignment, and the machine agrees. -/
theorem Answers.settles
    {program : Program}
    {input : InputStream}
    {assignment : Assignment}
    {capacity : Nat}
    {engine : Engine}
    (answers : engine.Answers program input assignment capacity)
    (finished : engine.pending = [])
    (one : engine.paths.countP (Path.accepts assignment) = 1) :
    ∃ steps result,
      engine.Settles assignment steps result ∧
        HaltsWith program input capacity steps result := by
  unfold paths at one
  rw [finished, List.append_nil, List.countP_append, List.countP_map,
    List.countP_eq_length_filter, List.countP_eq_length_filter] at one
  rcases Nat.add_eq_one_iff.mp one with ⟨none, single⟩ | ⟨single, none⟩
  · obtain ⟨entry, accepted⟩ := List.length_eq_one_iff.mp single
    have others := List.length_eq_zero_iff.mp none
    obtain ⟨member, accepts⟩ := List.mem_filter.mp
      (accepted ▸ List.mem_singleton_self entry)
    exact ⟨_, _, .faulted others accepted,
      answers.faulted entry member accepts⟩
  · obtain ⟨path, accepted⟩ := List.length_eq_one_iff.mp single
    have others := List.length_eq_zero_iff.mp none
    obtain ⟨member, accepts⟩ := List.mem_filter.mp
      (accepted ▸ List.mem_singleton_self path)
    exact ⟨_, _, .completed accepted others,
      answers.completed path member accepts⟩

/-- An assignment is settled in one way only. -/
theorem Settles.unique
    {engine : Engine}
    {assignment : Assignment}
    {steps otherSteps : Nat}
    {result otherResult : Except (Located Fault) (Array UInt8)}
    (settles : engine.Settles assignment steps result)
    (other : engine.Settles assignment otherSteps otherResult) :
    steps = otherSteps ∧ result = otherResult := by
  cases settles with
  | completed accepted others =>
      cases other with
      | completed otherAccepted _ =>
          cases accepted.symm.trans otherAccepted
          exact ⟨rfl, rfl⟩
      | faulted none _ => cases none.symm.trans accepted
  | faulted others accepted =>
      cases other with
      | completed _ none => cases none.symm.trans accepted
      | faulted _ otherAccepted =>
          cases accepted.symm.trans otherAccepted
          exact ⟨rfl, rfl⟩

end Engine

/-- When the exploration of a program with matched loops has nothing left to
run, exactly one completed or faulted path accepts the input, and the machine
halts with the output or the fault of this path. -/
theorem finished_exploration_settles_input
    {source : String}
    {program : Program}
    (loaded : Program.load source .precomputed = .ok program)
    {config : Config}
    (records : config.outputPolicy = .recordSymbolic)
    {watchdog : Watchdog}
    {engine final : Engine}
    (reached : Engine.Reached program config watchdog engine)
    (finished : engine.execute = (none, final))
    (bytes : Array UInt8)
    {assignment : Assignment}
    (agrees : assignment.Agrees (.ofBytes bytes)) :
    ∃ steps result,
      final.Settles assignment steps result ∧
        ∀ fuel, steps ≤ fuel ->
          interpret program bytes (.fixed config.tapeCapacity) fuel =
            some result := by
  have finalReached := reached.executed
  rw [finished] at finalReached
  have answers := finalReached.answers agrees
    (Program.exists_matchingExit?_of_load loaded) records
  exact answers.settles (Engine.pending_of_execute finished)
    (finalReached.countP_accepts_paths assignment)

/-- A loop that moves off the tape unless the input byte is zero. -/
def leavesTape : Program :=
  ⟨#[.read, .loopEnter, .moveLeft, .loopExit],
    some ⟨#[none, some 3, none, some 1]⟩⟩

/-- The loop before it is explored. -/
def leavesTapeEngine : Engine :=
  Engine.create leavesTape
    { tapeCapacity := 1, outputPolicy := .recordSymbolic } .idle

/-- The loop has one completed and one faulted path.  The latter accepts the
input of a single byte seven, on which the machine leaves the tape at its fourth
instruction. -/
theorem finished_exploration_settles_leavesTape :
    Program.load ",[<]" .precomputed = .ok leavesTape ∧
      leavesTapeEngine.execute.1 = none ∧
      leavesTapeEngine.execute.2.Settles
        (InputStream.assignment (.ofBytes #[7])) 4
        (.error ⟨3, .memoryAccess (-1) 1⟩) ∧
      ∀ fuel, 4 ≤ fuel ->
        interpret leavesTape #[7] (.fixed 1) fuel =
          some (.error ⟨3, .memoryAccess (-1) 1⟩) := by
  have loaded : Program.load ",[<]" .precomputed = .ok leavesTape := by decide
  obtain ⟨final, path, entry, ends, completed_eq, zero_eq, faulted_eq,
      nonZero_eq, steps_eq, fault_eq⟩ :
      ∃ final path entry, leavesTapeEngine.execute = (none, final) ∧
        final.completed.toList = [path] ∧
        path.state.constraint =
          Constraint.trivial.and (.isZero (.symbol (inputName 0))) ∧
        final.faulted.toList = [entry] ∧
        entry.path.state.constraint =
          Constraint.trivial.and (.isNonZero (.symbol (inputName 0))) ∧
        entry.path.state.steps = 4 ∧
        entry.fault = ⟨3, .memoryAccess (-1) 1⟩ := by
    rw [Engine.execute_eq_complete]
    iterate 3 rw [Engine.complete_of_next rfl]
    rw [Engine.complete_of_finished rfl]
    exact ⟨_, _, _, rfl, rfl, rfl, rfl, rfl, rfl, rfl⟩
  have agrees := InputStream.agrees_assignment (.ofBytes #[7])
  have byte := agrees 0
  have settled : final.Settles (InputStream.assignment (.ofBytes #[7])) 4
      (.error ⟨3, .memoryAccess (-1) 1⟩) := by
    rw [← steps_eq, ← fault_eq]
    refine .faulted ?_ ?_
    · simp [completed_eq, Path.accepts, zero_eq, Predicate.holds,
        Predicate.term, Predicate.accepts, byte, InputStream.ofBytes,
        InputStream.newline]
    · simp [faulted_eq, Path.accepts, nonZero_eq, Predicate.holds,
        Predicate.term, Predicate.accepts, byte, InputStream.ofBytes,
        InputStream.newline]
  obtain ⟨steps, result, settles, halts⟩ :=
    finished_exploration_settles_input loaded rfl (.created _) ends #[7] agrees
  obtain ⟨rfl, rfl⟩ := settles.unique settled
  rw [ends]
  exact ⟨loaded, rfl, settles, halts⟩

end SymbolicTape
