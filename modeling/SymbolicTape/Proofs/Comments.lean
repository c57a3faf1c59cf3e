import Mathlib.Data.List.Forall2
import Mathlib.Logic.Function.Iterate
import SymbolicTape.Proofs.BranchOrder
import SymbolicTape.Proofs.Renumbering

/-!
# Comments do not affect explorations

A program and the same program without its comments are run side by side.  A
comment takes a step of the first and none of the second.  Any other instruction
takes a step of both and does the same in both, up to the numbers of the
instructions.

A depth-first exploration is cut into paces for this.  A pace is one instruction
of the path on top of the stack, and a path that has reached the end is completed
by a pace of its own.  So a path that has only comments in front of it ends with
the same pace in both explorations.
-/

namespace SymbolicTape

/-! ## States -/

/-- Two states with the same head, tape, constraint, input and output. -/
def State.SameData (state other : State) : Prop :=
  state.pointer = other.pointer ∧
    state.tape = other.tape ∧
    state.constraint = other.constraint ∧
    state.inputCounter = other.inputCounter ∧
    state.output = other.output

/-- A state with the ranks of its instructions and another number of steps. -/
def State.renumber (program : Program) (steps : Nat) (state : State) : State :=
  { state with
    instructionPointer := program.rank state.instructionPointer
    loopStack := state.loopStack.map program.rank
    steps := steps }

/-- A state of a program, and the state without the comments of the program. -/
structure State.Matches (program : Program) (state other : State) : Prop where
  location : other.instructionPointer = program.rank state.instructionPointer
  loops : other.loopStack = state.loopStack.map program.rank
  entered : ∀ enter ∈ state.loopStack,
    ActsAt program.instructions.toList enter
  data : state.SameData other

/-- Two effects of the same kind, on states with and without comments. -/
inductive Effect.Matches (program : Program) : Effect -> Effect -> Prop
  | next
      {after otherAfter : State}
      (alike : after.Matches program otherAfter) :
      Matches program (.next after) (.next otherAfter)
  | split
      {zero nonZero otherZero otherNonZero : State}
      (zeroAlike : zero.Matches program otherZero)
      (nonZeroAlike : nonZero.Matches program otherNonZero) :
      Matches program (.split zero nonZero) (.split otherZero otherNonZero)
  | fault
      {after otherAfter : State}
      (alike : after.Matches program otherAfter)
      (reason : Fault) :
      Matches program (.fault after reason) (.fault otherAfter reason)

namespace State

section Matches

variable {program stripped : Program} {policy : OutputPolicy}
variable {state other : State}

theorem Matches.exists_eq_renumber (alike : state.Matches program other) :
    ∃ steps, other = state.renumber program steps := by
  obtain ⟨location, loops, -, pointer, tape, constraint, inputCounter,
    output⟩ := alike
  refine ⟨other.steps, ?_⟩
  unfold renumber
  rw [pointer, tape, constraint, inputCounter, output, ← location, ← loops]

theorem Matches.countStep (alike : state.Matches program other) :
    state.countStep.Matches program other.countStep :=
  ⟨alike.location, alike.loops, alike.entered, alike.data⟩

theorem Matches.assume
    (alike : state.Matches program other)
    (clause : Predicate) :
    (state.assume clause).Matches program (other.assume clause) := by
  obtain ⟨pointer, tape, constraint, inputCounter, output⟩ := alike.data
  refine ⟨alike.location, alike.loops, alike.entered, pointer, tape, ?_,
    inputCounter, output⟩
  exact congrArg (Constraint.and · clause) constraint

/-- An instruction that is not a comment moves both states on. -/
theorem Matches.advance
    (alike : state.Matches program other)
    (acts : ActsAt program.instructions.toList state.instructionPointer) :
    state.advance.Matches program other.advance := by
  refine ⟨?_, alike.loops, alike.entered, alike.data⟩
  exact (congrArg Nat.succ alike.location).trans acts.rank_succ.symm

theorem Matches.enterLoop
    (alike : state.Matches program other)
    (acts : ActsAt program.instructions.toList state.instructionPointer) :
    state.enterLoop.Matches program other.enterLoop := by
  refine ⟨(alike.advance acts).location, ?_, ?_, alike.data⟩
  · exact congrArg₂ List.cons alike.location alike.loops
  · exact List.forall_mem_cons.mpr ⟨acts, alike.entered⟩

theorem Matches.exitLoop
    (alike : state.Matches program other)
    (acts : ActsAt program.instructions.toList state.instructionPointer) :
    state.exitLoop.Matches program other.exitLoop := by
  refine ⟨(alike.advance acts).location, ?_, ?_, alike.data⟩
  · exact (congrArg List.tail alike.loops).trans List.map_tail.symm
  · intro enter member
    exact alike.entered enter (List.mem_of_mem_tail member)

/-- Going on behind an instruction that is not a comment leads to its rank. -/
theorem Matches.skipLoop
    (alike : state.Matches program other)
    {exit : Nat}
    (acts : ActsAt program.instructions.toList exit) :
    (state.skipLoop exit).Matches program
      (other.skipLoop (program.rank exit)) :=
  ⟨acts.rank_succ.symm, alike.loops, alike.entered, alike.data⟩

theorem Matches.repeatLoop
    (alike : state.Matches program other)
    {enter : Nat}
    (acts : ActsAt program.instructions.toList enter) :
    (state.repeatLoop enter).Matches program
      (other.repeatLoop (program.rank enter)) :=
  ⟨acts.rank_succ.symm, alike.loops, alike.entered, alike.data⟩

/-! ## Instructions -/

theorem Matches.changeCell
    (alike : state.Matches program other)
    (acts : ActsAt program.instructions.toList state.instructionPointer)
    (change : Value -> Value) :
    Effect.Matches program (state.changeCell change)
      (other.changeCell change) := by
  obtain ⟨steps, rfl⟩ := alike.exists_eq_renumber
  unfold State.changeCell
  dsimp only [renumber]
  cases state.tape.index? state.pointer with
  | error fault => exact .fault alike fault
  | ok index =>
      refine .next (Matches.advance ?_ acts)
      exact ⟨rfl, rfl, alike.entered, rfl, rfl, rfl, rfl, rfl⟩

/-- A loop test that skips the loop goes to the same exit. -/
theorem Matches.testAtEnter
    (strips : stripped.Strips program)
    (alike : state.Matches program other)
    (isEnter : program.instruction? state.instructionPointer =
      some .loopEnter) :
    Effect.Matches program (state.testAtEnter program)
      (other.testAtEnter stripped) := by
  have exit_eq := strips.matchingExit?_rank isEnter
  rw [← alike.location] at exit_eq
  have exitActs {exit : Nat}
      (found : program.matchingExit? state.instructionPointer = some exit) :
      ActsAt program.instructions.toList exit :=
    Brackets.actsAt_of_exit
      (strips.matched.matchingExit?_eq_some_iff.mp found).isExit
  rw [← Program.getElem?_toList_instructions] at isEnter
  have acts := Brackets.actsAt_of_enter isEnter
  obtain ⟨pointer, tape, -⟩ := alike.data
  unfold State.testAtEnter
  rw [← tape, ← pointer, exit_eq]
  cases state.tape.get state.pointer with
  | error fault => exact .fault alike fault
  | ok value =>
      dsimp only
      cases value.zeroTest with
      | nonZero => exact .next (alike.enterLoop acts)
      | zero =>
          cases found : program.matchingExit? state.instructionPointer with
          | none => exact .fault alike _
          | some exit => exact .next (alike.skipLoop (exitActs found))
      | undetermined whenZero =>
          cases found : program.matchingExit? state.instructionPointer with
          | none => exact .fault alike _
          | some exit =>
              exact .split ((alike.assume _).skipLoop (exitActs found))
                ((alike.assume _).enterLoop acts)

/-- A loop test that repeats the loop goes back to the same enter. -/
theorem Matches.testAtExit
    (alike : state.Matches program other)
    (acts : ActsAt program.instructions.toList state.instructionPointer) :
    Effect.Matches program state.testAtExit other.testAtExit := by
  obtain ⟨pointer, tape, -⟩ := alike.data
  unfold State.testAtExit
  rw [alike.loops, ← tape, ← pointer]
  cases loops_eq : state.loopStack with
  | nil => exact .fault alike _
  | cons enter outer =>
      have enterActs : ActsAt program.instructions.toList enter := by
        apply alike.entered
        rw [loops_eq]
        exact List.mem_cons_self
      dsimp only [List.map_cons]
      cases state.tape.get state.pointer with
      | error fault => exact .fault alike fault
      | ok value =>
          dsimp only
          cases value.zeroTest with
          | zero => exact .next (alike.exitLoop acts)
          | nonZero => exact .next (alike.repeatLoop enterActs)
          | undetermined whenZero =>
              exact .split ((alike.assume _).exitLoop acts)
                ((alike.assume _).repeatLoop enterActs)

theorem Matches.readInput
    (alike : state.Matches program other)
    (acts : ActsAt program.instructions.toList state.instructionPointer) :
    Effect.Matches program state.readInput other.readInput := by
  obtain ⟨steps, rfl⟩ := alike.exists_eq_renumber
  unfold State.readInput
  dsimp only [renumber]
  cases state.tape.index? state.pointer with
  | error fault => exact .fault alike fault
  | ok index =>
      refine .next (Matches.advance ?_ acts)
      exact ⟨rfl, rfl, alike.entered, rfl, rfl, rfl, rfl, rfl⟩

theorem Matches.writeOutput
    (alike : state.Matches program other)
    (acts : ActsAt program.instructions.toList state.instructionPointer) :
    Effect.Matches program (state.writeOutput policy)
      (other.writeOutput policy) := by
  obtain ⟨steps, rfl⟩ := alike.exists_eq_renumber
  unfold State.writeOutput
  dsimp only [renumber]
  cases state.tape.get state.pointer with
  | error fault => exact .fault alike fault
  | ok value =>
      dsimp only
      split
      · exact .fault alike _
      · refine .next (Matches.advance ?_ acts)
        exact ⟨rfl, rfl, alike.entered, rfl, rfl, rfl, rfl, rfl⟩

/-- An instruction that is not a comment does the same in both states. -/
theorem Matches.execute
    (strips : stripped.Strips program)
    (alike : state.Matches program other)
    {opcode : Opcode}
    (fetched : program.instruction? state.instructionPointer = some opcode)
    (isAction : opcode.acts = true) :
    Effect.Matches program (state.execute program policy opcode)
      (other.execute stripped policy opcode) := by
  have acts : ActsAt program.instructions.toList state.instructionPointer :=
    ⟨opcode, (program.getElem?_toList_instructions _).trans fetched, isAction⟩
  obtain ⟨pointer, tape, constraint, inputCounter, output⟩ := alike.data
  cases opcode with
  | moveRight =>
      refine .next (Matches.advance ?_ acts)
      exact ⟨alike.location, alike.loops, alike.entered,
        congrArg (· + 1) pointer, tape, constraint, inputCounter, output⟩
  | moveLeft =>
      refine .next (Matches.advance ?_ acts)
      exact ⟨alike.location, alike.loops, alike.entered,
        congrArg (· - 1) pointer, tape, constraint, inputCounter, output⟩
  | increment => exact alike.changeCell acts _
  | decrement => exact alike.changeCell acts _
  | loopEnter => exact alike.testAtEnter strips fetched
  | loopExit => exact alike.testAtExit acts
  | read => exact alike.readInput acts
  | write => exact alike.writeOutput acts
  | comment character => cases isAction

/-- At the end of the program there are only comments left. -/
theorem Matches.effect?_eq_none
    (strips : stripped.Strips program)
    (alike : state.Matches program other)
    (ended : state.effect? program policy = none) :
    other.effect? stripped policy = none := by
  rw [effect?_eq_none_iff, isDone, decide_eq_true_iff, Program.size,
    ← Array.length_toList] at ended ⊢
  rw [alike.location, strips.instructions, Program.rank,
    rank_of_length_le ended]

/-- What the next instruction does in both states.  If it is a comment, then only
one of them takes a step. -/
theorem Matches.effect?_cases
    (strips : stripped.Strips program)
    (alike : state.Matches program other)
    {effect : Effect}
    (effect_eq : state.effect? program policy = some effect) :
    (∃ after, effect = .next after ∧ after.Matches program other) ∨
      (ActsAt program.instructions.toList state.instructionPointer ∧
        ∃ otherEffect, other.effect? stripped policy = some otherEffect ∧
          Effect.Matches program effect otherEffect) := by
  obtain ⟨opcode, fetched, rfl⟩ := Option.map_eq_some_iff.mp effect_eq
  have here : program.instructions.toList[state.instructionPointer]? =
      some opcode :=
    (program.getElem?_toList_instructions _).trans fetched
  by_cases isAction : opcode.acts = true
  · right
    refine ⟨⟨opcode, here, isAction⟩, _, ?_,
      alike.countStep.execute strips fetched isAction⟩
    have found : stripped.instruction? other.instructionPointer =
        some opcode := by
      rw [← Program.getElem?_toList_instructions, strips.instructions,
        alike.location]
      exact getElem?_rank here isAction
    unfold effect?
    rw [found]
    rfl
  · left
    cases opcode with
    | comment character =>
        have idle :
            ¬ActsAt program.instructions.toList state.instructionPointer := by
          rintro ⟨opcode, alsoHere, acts⟩
          cases here.symm.trans alsoHere
          cases acts
        refine ⟨_, rfl, ?_, alike.loops, alike.entered, alike.data⟩
        exact alike.location.trans (rank_succ_of_not_actsAt idle).symm
    | _ => exact absurd rfl isAction

end Matches
end State

/-! ## Paces -/

namespace Path

/-- One instruction of a path, or its completion if it has reached the end. -/
def pace
    (program : Program)
    (policy : OutputPolicy)
    (names : Names)
    (path : Path) : Slice Path :=
  match path.state.effect? program policy with
  | none => ⟨0, .done path⟩
  | some (.next after) => ⟨1, .advanced { path with state := after }⟩
  | some (.split zero nonZero) =>
      ⟨1, path.follow names
        (.forked path.state.instructionPointer zero nonZero)⟩
  | some (.fault after reason) =>
      ⟨1, path.follow names
        (.faulted after ⟨path.state.instructionPointer, reason⟩)⟩

/-- A slice of one instruction is a pace, or a pace to the end of the program and
the pace that completes the path there. -/
theorem step_one_eq_pace
    (program : Program)
    (policy : OutputPolicy)
    (names : Names)
    (path : Path) :
    path.step program policy names 1 = path.pace program policy names ∨
      ∃ after : Path,
        path.pace program policy names = ⟨1, .advanced after⟩ ∧
          after.pace program policy names = ⟨0, .done after⟩ ∧
          path.step program policy names 1 = ⟨1, .done after⟩ := by
  unfold pace step State.step State.stepFrom State.effect?
  cases program.instruction? path.state.instructionPointer with
  | none => exact .inl rfl
  | some opcode =>
      dsimp only [Option.map_some]
      cases path.state.countStep.execute program policy opcode with
      | split zero nonZero => exact .inl rfl
      | fault after reason => exact .inl rfl
      | next after =>
          dsimp only [State.stepFrom]
          cases ended : after.isDone program with
          | false => exact .inl rfl
          | true =>
              have noEffect :=
                (@State.effect?_eq_none_iff program policy _).mpr ended
              refine .inr ⟨_, rfl, ?_, rfl⟩
              unfold State.effect? at noEffect
              rw [noEffect]

end Path

namespace Progress

/-- The next path goes on by a pace. -/
def pace (rules : Rules) (progress : Progress) : Progress :=
  match progress.stack with
  | [] => progress
  | path :: rest =>
      progress.file rules.prune rest
        (path.pace rules.program rules.policy progress.names)

section Paces

variable {rules : Rules} {progress : Progress}

theorem pace_of_stack_eq
    {path : Path}
    {rest : List Path}
    (stack_eq : progress.stack = path :: rest) :
    progress.pace rules =
      progress.file rules.prune rest
        (path.pace rules.program rules.policy progress.names) := by
  unfold pace
  rw [stack_eq]

theorem pace_of_stack_eq_nil (empty : progress.stack = []) :
    progress.pace rules = progress := by
  unfold pace
  rw [empty]

/-- A slice of one instruction is one pace or two. -/
theorem exists_iterate_pace_eq_file
    {path : Path}
    {rest : List Path}
    (stack_eq : progress.stack = path :: rest) :
    ∃ count, progress.file rules.prune rest
        (path.step rules.program rules.policy progress.names 1) =
      (pace rules)^[count] progress := by
  rcases path.step_one_eq_pace rules.program rules.policy progress.names with
    step_eq | ⟨after, pace_eq, last_eq, step_eq⟩
  · exact ⟨1, by rw [step_eq]; exact (pace_of_stack_eq stack_eq).symm⟩
  · refine ⟨2, ?_⟩
    have first := @pace_of_stack_eq rules _ _ _ stack_eq
    rw [pace_eq] at first
    have second : (progress.pace rules).pace rules =
        (progress.pace rules).file rules.prune rest ⟨0, .done after⟩ := by
      rw [← last_eq, first]
      exact pace_of_stack_eq rfl
    calc progress.file rules.prune rest
          (path.step rules.program rules.policy progress.names 1)
        = progress.file rules.prune rest ⟨1 + 0, .done after⟩ := by
          rw [step_eq]
      _ = (progress.file rules.prune rest ⟨1, .advanced after⟩).file
            rules.prune rest ⟨0, .done after⟩ :=
          (file_file _ _ _ _ _ _ _).symm
      _ = (progress.pace rules).pace rules := by rw [second, first]

/-- Paces come to rest in one place only. -/
theorem iterate_pace_unique
    {first second : Nat}
    (firstEmpty : ((pace rules)^[first] progress).stack = [])
    (secondEmpty : ((pace rules)^[second] progress).stack = []) :
    (pace rules)^[first] progress = (pace rules)^[second] progress := by
  wlog atMost : first ≤ second
  · exact (this secondEmpty firstEmpty (Nat.le_of_not_le atMost)).symm
  · obtain ⟨further, rfl⟩ := Nat.exists_eq_add_of_le' atMost
    rw [Function.iterate_add_apply]
    exact (Function.iterate_fixed (pace_of_stack_eq_nil firstEmpty)
      further).symm

end Paces
end Progress

/-- A depth-first exploration is a number of paces. -/
theorem Engine.Reached.exists_iterate_pace
    {program : Program}
    {config : Config}
    {watchdog : Watchdog}
    {engine : Engine}
    (deep : config.strategy = .depthFirst)
    (reached : Engine.Reached program config watchdog engine) :
    ∃ names count, engine.progress =
      (Progress.pace
        ⟨program, config.outputPolicy, config.pruneInfeasible⟩)^[count]
        (create program config watchdog names).progress := by
  refine reached.depthFirst_invariant deep
    (fun progress => ∃ names count, progress =
      (Progress.pace
        ⟨program, config.outputPolicy, config.pruneInfeasible⟩)^[count]
        (create program config watchdog names).progress)
    (fun names => ⟨names, 0, rfl⟩) ?_
  rintro progress path rest ⟨names, count, progress_eq⟩ stack_eq
  obtain ⟨more, filed_eq⟩ := @Progress.exists_iterate_pace_eq_file
    ⟨program, config.outputPolicy, config.pruneInfeasible⟩ _ _ _ stack_eq
  refine ⟨names, more + count, ?_⟩
  rw [Function.iterate_add_apply, ← progress_eq]
  exact filed_eq

/-! ## Explorations side by side -/

/-- A path through a program, and the path without comments. -/
def Path.Matches (program : Program) (path other : Path) : Prop :=
  path.state.Matches program other.state

/-- A faulted path of a program, and the one without comments. -/
structure FaultedPath.Matches
    (program : Program)
    (entry other : FaultedPath) : Prop where
  alike : entry.path.Matches program other.path
  payload : entry.fault.payload = other.fault.payload
  acts : ActsAt program.instructions.toList entry.fault.location
  location : other.fault.location = program.rank entry.fault.location

namespace Progress

/-- How far a depth-first exploration has got with and without comments. -/
structure Matches
    (program : Program)
    (progress other : Progress) : Prop where
  stack : List.Forall₂ (Path.Matches program) progress.stack other.stack
  completed : List.Forall₂ (Path.Matches program)
    progress.completed.toList other.completed.toList
  faulted : List.Forall₂ (FaultedPath.Matches program)
    progress.faulted.toList other.faulted.toList
  forks : progress.forks = other.forks
  drops : progress.drops = other.drops

section Matches

variable {program stripped : Program} {policy : OutputPolicy}
variable {progress other : Progress} {path strippedPath : Path}
variable {rest strippedRest : List Path}

theorem Matches.file_done
    (alike : progress.Matches program other)
    (restAlike : List.Forall₂ (Path.Matches program) rest strippedRest)
    (pathAlike : path.Matches program strippedPath)
    (prune : Bool) :
    (progress.file prune rest ⟨0, .done path⟩).Matches program
      (other.file prune strippedRest ⟨0, .done strippedPath⟩) := by
  refine ⟨restAlike, ?_, alike.faulted, alike.forks, alike.drops⟩
  simp only [file, Array.toList_push]
  exact List.rel_append alike.completed (.cons pathAlike .nil)

theorem Matches.file_faulted
    (alike : progress.Matches program other)
    (restAlike : List.Forall₂ (Path.Matches program) rest strippedRest)
    {fault strippedFault : Located Fault}
    (faultAlike : FaultedPath.Matches program ⟨path, fault⟩
      ⟨strippedPath, strippedFault⟩)
    (prune : Bool) :
    (progress.file prune rest ⟨1, .faulted path fault⟩).Matches program
      (other.file prune strippedRest
        ⟨1, .faulted strippedPath strippedFault⟩) := by
  refine ⟨restAlike, alike.completed, ?_, alike.forks, alike.drops⟩
  simp only [file, Array.toList_push]
  exact List.rel_append alike.faulted (.cons faultAlike .nil)

/-- The same sides of a fork are dropped. -/
theorem Matches.file_forked
    (alike : progress.Matches program other)
    (restAlike : List.Forall₂ (Path.Matches program) rest strippedRest)
    {zero nonZero strippedZero strippedNonZero : Path}
    (zeroAlike : zero.Matches program strippedZero)
    (nonZeroAlike : nonZero.Matches program strippedNonZero)
    (prune : Bool)
    (location strippedLocation : Nat) :
    (progress.file prune rest ⟨1, .forked location zero nonZero⟩).Matches
      program
      (other.file prune strippedRest
        ⟨1, .forked strippedLocation strippedZero strippedNonZero⟩) := by
  have dropped_eq {path strippedPath : Path}
      (pathAlike : path.Matches program strippedPath) :
      path.state.isDropped prune = strippedPath.state.isDropped prune := by
    obtain ⟨-, -, constraint_eq, -⟩ := State.Matches.data pathAlike
    unfold State.isDropped
    rw [constraint_eq]
  have sidesAlike : List.Forall₂ (Path.Matches program)
      [zero, nonZero] [strippedZero, strippedNonZero] :=
    .cons zeroAlike (.cons nonZeroAlike .nil)
  have filtered (keep : Bool -> Bool) : List.Forall₂ (Path.Matches program)
      ([zero, nonZero].filter fun side => keep (side.state.isDropped prune))
      ([strippedZero, strippedNonZero].filter fun side =>
        keep (side.state.isDropped prune)) := by
    refine List.rel_filter ?_ sidesAlike
    intro path strippedPath pathAlike
    dsimp only
    rw [dropped_eq pathAlike]
  refine ⟨?_, alike.completed, alike.faulted, ?_, ?_⟩
  · exact List.rel_append (filtered fun dropped => !dropped) restAlike
  · exact congrArg (· + 1) alike.forks
  · exact congrArg₂ (· + ·) alike.drops (filtered id).length_eq

/-- A pace with comments is a pace without them, or none if it passes a
comment. -/
theorem Matches.pace
    (strips : stripped.Strips program)
    (alike : progress.Matches program other)
    (prune : Bool) :
    (progress.pace ⟨program, policy, prune⟩).Matches program other ∨
      (progress.pace ⟨program, policy, prune⟩).Matches program
        (other.pace ⟨stripped, policy, prune⟩) := by
  have stackAlike := alike.stack
  cases stack_eq : progress.stack with
  | nil =>
      rw [pace_of_stack_eq_nil stack_eq]
      exact .inl alike
  | cons path rest =>
      rw [stack_eq] at stackAlike
      cases strippedStack_eq : other.stack with
      | nil =>
          rw [strippedStack_eq] at stackAlike
          cases stackAlike
      | cons strippedPath strippedRest =>
          rw [strippedStack_eq] at stackAlike
          obtain ⟨pathAlike, restAlike⟩ := List.forall₂_cons.mp stackAlike
          have stateAlike : path.state.Matches program strippedPath.state :=
            pathAlike
          rw [pace_of_stack_eq stack_eq, pace_of_stack_eq strippedStack_eq]
          dsimp only
          cases effect_eq : path.state.effect? program policy with
          | none =>
              right
              unfold Path.pace
              rw [effect_eq, stateAlike.effect?_eq_none strips effect_eq]
              exact alike.file_done restAlike pathAlike prune
          | some effect =>
              rcases stateAlike.effect?_cases strips effect_eq with
                ⟨after, rfl, afterAlike⟩ |
                  ⟨acts, strippedEffect, strippedEffect_eq, effectAlike⟩
              · left
                unfold Path.pace
                rw [effect_eq]
                refine ⟨?_, alike.completed, alike.faulted, alike.forks,
                  alike.drops⟩
                rw [strippedStack_eq]
                exact .cons afterAlike restAlike
              · right
                unfold Path.pace
                rw [effect_eq, strippedEffect_eq]
                cases effectAlike with
                | next afterAlike =>
                    exact ⟨.cons afterAlike restAlike, alike.completed,
                      alike.faulted, alike.forks, alike.drops⟩
                | split zeroAlike nonZeroAlike =>
                    apply alike.file_forked restAlike
                    · exact zeroAlike
                    · exact nonZeroAlike
                | fault afterAlike reason =>
                    apply alike.file_faulted restAlike
                    exact ⟨afterAlike, rfl, acts, stateAlike.location⟩

/-- Any number of paces with comments is some number of paces without them. -/
theorem Matches.iterate_pace
    (strips : stripped.Strips program)
    (alike : progress.Matches program other)
    (prune : Bool)
    (count : Nat) :
    ∃ strippedCount,
      ((Progress.pace ⟨program, policy, prune⟩)^[count] progress).Matches
        program
        ((Progress.pace ⟨stripped, policy, prune⟩)^[strippedCount] other) := by
  induction count with
  | zero => exact ⟨0, alike⟩
  | succ count inductionHypothesis =>
      obtain ⟨strippedCount, soFar⟩ := inductionHypothesis
      rw [Function.iterate_succ_apply']
      rcases soFar.pace strips prune with passed | paced
      · exact ⟨strippedCount, passed⟩
      · refine ⟨strippedCount + 1, ?_⟩
        rw [Function.iterate_succ_apply']
        exact paced

end Matches
end Progress

/-- A new engine is in front of the same tape with and without comments. -/
theorem Engine.progress_create_matches
    {program stripped : Program}
    {config strippedConfig : Config}
    {watchdog strippedWatchdog : Watchdog}
    {names strippedNames : Names}
    (capacity_eq : config.tapeCapacity = strippedConfig.tapeCapacity) :
    (create program config watchdog names).progress.Matches program
      (create stripped strippedConfig strippedWatchdog
        strippedNames).progress := by
  have initialAlike : (State.initial config.tapeCapacity).Matches program
      (State.initial strippedConfig.tapeCapacity) := by
    rw [capacity_eq]
    exact ⟨rfl, rfl, List.forall_mem_nil _, rfl, rfl, rfl, rfl, rfl⟩
  rw [progress_create, progress_create]
  exact ⟨.cons initialAlike .nil, .nil, .nil, rfl, rfl⟩

/-- Explorations with and without comments that leave nothing to be run have
ended alike. -/
theorem Engine.progress_matches_of_isComplete
    {program stripped : Program}
    (strips : stripped.Strips program)
    {config strippedConfig : Config}
    {watchdog strippedWatchdog : Watchdog}
    {engine strippedEngine : Engine}
    (capacity_eq : config.tapeCapacity = strippedConfig.tapeCapacity)
    (policy_eq : config.outputPolicy = strippedConfig.outputPolicy)
    (prune_eq : config.pruneInfeasible = strippedConfig.pruneInfeasible)
    (deep : config.strategy = .depthFirst)
    (strippedDeep : strippedConfig.strategy = .depthFirst)
    (reached : Reached program config watchdog engine)
    (complete : engine.isComplete = true)
    (strippedReached :
      Reached stripped strippedConfig strippedWatchdog strippedEngine)
    (strippedComplete : strippedEngine.isComplete = true) :
    engine.progress.Matches program strippedEngine.progress := by
  have empty {engine : Engine} (complete : engine.isComplete = true) :
      engine.progress.stack = [] :=
    congrArg List.reverse (isComplete_iff.mp complete)
  obtain ⟨names, count, progress_eq⟩ := reached.exists_iterate_pace deep
  obtain ⟨strippedNames, strippedCount, strippedProgress_eq⟩ :=
    strippedReached.exists_iterate_pace strippedDeep
  rw [← policy_eq, ← prune_eq] at strippedProgress_eq
  obtain ⟨paces, alike⟩ := (progress_create_matches capacity_eq).iterate_pace
    strips config.pruneInfeasible count
  rw [← progress_eq] at alike
  -- Both numbers of paces without comments leave nothing on the stack.
  have stackAlike := alike.stack
  rw [empty complete, List.forall₂_nil_left_iff] at stackAlike
  have strippedEmpty := empty strippedComplete
  rw [strippedProgress_eq] at strippedEmpty ⊢
  rwa [Progress.iterate_pace_unique strippedEmpty stackAlike]

/-- Comments do not matter.  A text of any allowed length is refused exactly if it
is refused without its comments, for the same reason and at the same character.
If it is loaded, then depth-first explorations of both programs that leave
nothing to be run, and that agree on the tape, on symbolic output and on pruning,
have completed and faulted the same paths in the same order, with faults at the
same characters, and they have forked and dropped as many paths. -/
theorem comments_are_immaterial
    (source : String)
    (fits : source.length ≤ maximumProgramSize)
    (matching : Matching) :
    ((∃ problem, Program.load source matching = .error problem) ↔
      ∃ problem,
        Program.load (Program.strip source) matching = .error problem) ∧
    (∀ problem strippedProblem,
      Program.load source matching = .error problem ->
      Program.load (Program.strip source) matching = .error strippedProblem ->
        problem.payload = strippedProblem.payload ∧
          (Program.places source)[strippedProblem.location]? =
            some problem.location) ∧
    (∀ program stripped,
      Program.load source matching = .ok program ->
      Program.load (Program.strip source) matching = .ok stripped ->
      ∀ (config strippedConfig : Config)
        (watchdog strippedWatchdog : Watchdog)
        (engine strippedEngine : Engine),
        config.tapeCapacity = strippedConfig.tapeCapacity ->
        config.outputPolicy = strippedConfig.outputPolicy ->
        config.pruneInfeasible = strippedConfig.pruneInfeasible ->
        config.strategy = .depthFirst ->
        strippedConfig.strategy = .depthFirst ->
        Engine.Reached program config watchdog engine ->
        engine.isComplete = true ->
        Engine.Reached stripped strippedConfig strippedWatchdog
          strippedEngine ->
        strippedEngine.isComplete = true ->
          List.Forall₂
            (fun path strippedPath : Path =>
              path.state.SameData strippedPath.state)
            engine.completed.toList strippedEngine.completed.toList ∧
          List.Forall₂
            (fun entry strippedEntry : FaultedPath =>
              entry.path.state.SameData strippedEntry.path.state ∧
                entry.fault.payload = strippedEntry.fault.payload ∧
                (Program.places source)[strippedEntry.fault.location]? =
                  some entry.fault.location)
            engine.faulted.toList strippedEngine.faulted.toList ∧
          engine.statistics.forks = strippedEngine.statistics.forks ∧
          engine.statistics.pruned = strippedEngine.statistics.pruned) := by
  rcases Program.load_strip fits matching with
    ⟨program, stripped, loaded, strippedLoaded, instructions_eq, strips⟩ |
      ⟨location, reason, refused, strippedRefused, acts⟩
  · rw [loaded, strippedLoaded]
    refine ⟨?_, nofun, ?_⟩
    · constructor <;> nofun
    · rintro _ _ ⟨⟩ ⟨⟩ config strippedConfig watchdog strippedWatchdog engine
        strippedEngine capacity_eq policy_eq prune_eq deep strippedDeep reached
        complete strippedReached strippedComplete
      have alike := Engine.progress_matches_of_isComplete strips capacity_eq
        policy_eq prune_eq deep strippedDeep reached complete strippedReached
        strippedComplete
      refine ⟨alike.completed.imp ?_, alike.faulted.imp ?_, alike.forks,
        alike.drops⟩
      · intro path strippedPath pathAlike
        exact State.Matches.data pathAlike
      · intro entry strippedEntry entryAlike
        refine ⟨State.Matches.data entryAlike.alike, entryAlike.payload, ?_⟩
        have acts := entryAlike.acts
        rw [instructions_eq] at acts
        rw [entryAlike.location, Program.rank, instructions_eq]
        exact Program.getElem?_places acts
  · rw [refused, strippedRefused]
    refine ⟨?_, ?_, nofun⟩
    · exact ⟨fun _ => ⟨_, rfl⟩, fun _ => ⟨_, rfl⟩⟩
    · rintro _ _ ⟨⟩ ⟨⟩
      exact ⟨rfl, Program.getElem?_places acts⟩

/-- A loop that writes an input byte, with comments before, between and behind
its instructions. -/
def annotatedText : String := "in , [ out . ] end"

/-- The program with its comments. -/
def annotatedProgram : Program := ⟨Program.decode annotatedText, none⟩

/-- The program without them. -/
def bareProgram : Program := ⟨#[.read, .loopEnter, .write, .loopExit], none⟩

/-- A program before it is explored on a short tape. -/
def shortTapeEngine (program : Program) : Engine :=
  .create program { tapeCapacity := 4 } .idle

/-- The path that enters the loop faults at the same character, which is the
twelfth of the text and the third instruction. -/
theorem comments_are_immaterial_annotated :
    Program.load annotatedText .lazy = .ok annotatedProgram ∧
      Program.load (Program.strip annotatedText) .lazy = .ok bareProgram ∧
      (shortTapeEngine annotatedProgram).execute.1 = none ∧
      (shortTapeEngine bareProgram).execute.1 = none ∧
      (Program.places annotatedText)[2]? = some 11 ∧
      List.Forall₂
        (fun entry strippedEntry : FaultedPath =>
          entry.path.state.SameData strippedEntry.path.state ∧
            entry.fault.payload = strippedEntry.fault.payload ∧
            (Program.places annotatedText)[strippedEntry.fault.location]? =
              some entry.fault.location)
        (shortTapeEngine annotatedProgram).execute.2.faulted.toList
        (shortTapeEngine bareProgram).execute.2.faulted.toList ∧
      (shortTapeEngine bareProgram).execute.2.faulted.toList.map
        FaultedPath.fault = [⟨2, .unsupportedConcretization 0⟩] := by
  have loaded : Program.load annotatedText .lazy = .ok annotatedProgram := rfl
  have strippedLoaded :
      Program.load (Program.strip annotatedText) .lazy = .ok bareProgram := rfl
  have ends : (shortTapeEngine annotatedProgram).execute.1 = none := by
    rw [Engine.execute_eq_complete]
    iterate 3 rw [Engine.complete_of_next rfl]
    rw [Engine.complete_of_finished rfl]
  have strippedEnds : (shortTapeEngine bareProgram).execute.1 = none := by
    rw [Engine.execute_eq_complete]
    iterate 3 rw [Engine.complete_of_next rfl]
    rw [Engine.complete_of_finished rfl]
  have faults_eq :
      (shortTapeEngine bareProgram).execute.2.faulted.toList.map
        FaultedPath.fault = [⟨2, .unsupportedConcretization 0⟩] := by
    rw [Engine.execute_eq_complete]
    iterate 3 rw [Engine.complete_of_next rfl]
    rw [Engine.complete_of_finished rfl]
    rfl
  have immaterial :=
    (comments_are_immaterial annotatedText (by decide) .lazy).2.2
      annotatedProgram bareProgram loaded strippedLoaded _ _ _ _ _ _
      rfl rfl rfl rfl rfl (.executed (.created _))
      (Engine.isComplete_of_execute ends) (.executed (.created _))
      (Engine.isComplete_of_execute strippedEnds)
  exact ⟨loaded, strippedLoaded, ends, strippedEnds, by decide,
    immaterial.2.1, faults_eq⟩

end SymbolicTape
