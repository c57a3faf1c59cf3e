import SymbolicTape.Proofs.Brackets
import SymbolicTape.Proofs.Simulation

/-!
# The loop stack is determined by the instruction pointer

Both machines treat the instruction pointer and the loop stack alike.  What an
instruction can do to the two is said once, by `Program.Moves`, and which faults
concern the loops is said by `Program.Lacks`.  Every move keeps the stack equal
to the stack of the loops that are open at the instruction pointer.  Nothing is
assumed about the program except that its loops were matched by one of the two
ways, so it may be unbalanced.

Where the loops were matched when the program was loaded, no loop instruction
lacks its partner, and no fault concerns the loops.
-/

namespace SymbolicTape

/-- Whether a fault concerns the loops of the program. -/
def Fault.concernsLoops : Fault -> Bool
  | .unbalancedLoop => true
  | .noMatchingLoopExit => true
  | .memoryAccess _ _ => false
  | .unsupportedConcretization _ => false

namespace Program

/-- What an instruction does to the instruction pointer and to the loop
stack. -/
inductive Moves
    (program : Program)
    (location : Nat) : List Nat -> Nat -> List Nat -> Prop
  | advance
      {opcode : Opcode}
      {stack : List Nat}
      (fetched : program.instruction? location = some opcode)
      (plain : opcode.isBranch = false) :
      Moves program location stack (location + 1) stack
  | enter
      {stack : List Nat}
      (fetched : program.instruction? location = some .loopEnter) :
      Moves program location stack (location + 1) (location :: stack)
  | skip
      {exit : Nat}
      {stack : List Nat}
      (exit_eq : program.matchingExit? location = some exit) :
      Moves program location stack (exit + 1) stack
  | leave
      {enter : Nat}
      {stack : List Nat}
      (fetched : program.instruction? location = some .loopExit) :
      Moves program location (enter :: stack) (location + 1) stack
  | again
      {enter : Nat}
      {stack : List Nat}
      (fetched : program.instruction? location = some .loopExit) :
      Moves program location (enter :: stack) (enter + 1) (enter :: stack)

/-- Which loop instruction lacks its partner when a fault concerns the
loops. -/
inductive Lacks
    (program : Program)
    (location : Nat) : List Nat -> Fault -> Prop
  | enter (fetched : program.instruction? location = some .loopExit) :
      Lacks program location [] .unbalancedLoop
  | exit
      {stack : List Nat}
      (fetched : program.instruction? location = some .loopEnter)
      (unmatched : program.matchingExit? location = none) :
      Lacks program location stack .noMatchingLoopExit

end Program

/-! ## Symbolic states -/

/-- The effect of an instruction moves both sides on, or it faults. -/
def Effect.Steers
    (program : Program)
    (location : Nat)
    (stack : List Nat) : Effect -> Prop
  | .next after =>
      program.Moves location stack after.instructionPointer after.loopStack
  | .split zero nonZero =>
      program.Moves location stack zero.instructionPointer zero.loopStack ∧
        program.Moves location stack nonZero.instructionPointer
          nonZero.loopStack
  | .fault _ reason =>
      reason.concernsLoops = true -> program.Lacks location stack reason

/-- A pointer off the tape has nothing to do with loops. -/
theorem Tape.concernsLoops_of_index?
    {tape : Tape}
    {pointer : Int64}
    {fault : Fault}
    (failed : tape.index? pointer = .error fault) :
    fault.concernsLoops = false := by
  unfold index? at failed
  split at failed
  · cases failed
  · cases failed
    rfl

theorem Tape.concernsLoops_of_get
    {tape : Tape}
    {pointer : Int64}
    {fault : Fault}
    (failed : tape.get pointer = .error fault) :
    fault.concernsLoops = false := by
  unfold get at failed
  cases found : tape.index? pointer with
  | error reason =>
      rw [found] at failed
      cases failed
      exact concernsLoops_of_index? found
  | ok index =>
      rw [found] at failed
      cases failed

namespace State

section Steers

variable {program : Program} {state : State}

theorem steers_changeCell
    {opcode : Opcode}
    (change : Value -> Value)
    (fetched : program.instruction? state.instructionPointer = some opcode)
    (plain : opcode.isBranch = false) :
    (state.changeCell change).Steers program state.instructionPointer
      state.loopStack := by
  unfold changeCell
  split
  · rename_i fault failed
    intro concerned
    cases concerned.symm.trans (Tape.concernsLoops_of_index? failed)
  · exact .advance fetched plain

theorem steers_testAtEnter
    (fetched : program.instruction? state.instructionPointer =
      some .loopEnter) :
    (state.testAtEnter program).Steers program state.instructionPointer
      state.loopStack := by
  unfold testAtEnter
  split
  · rename_i fault failed
    intro concerned
    cases concerned.symm.trans (Tape.concernsLoops_of_get failed)
  · cases matched : program.matchingExit? state.instructionPointer with
    | none =>
        split
        · exact .enter fetched
        · exact fun _ => .exit fetched matched
        · exact fun _ => .exit fetched matched
    | some exit =>
        split
        · exact .enter fetched
        · exact .skip matched
        · exact ⟨.skip matched, .enter fetched⟩

theorem steers_testAtExit
    (fetched : program.instruction? state.instructionPointer =
      some .loopExit) :
    state.testAtExit.Steers program state.instructionPointer
      state.loopStack := by
  obtain ⟨instructionPointer, pointer, loopStack, tape, constraint,
    inputCounter, output, steps⟩ := state
  unfold testAtExit
  cases loopStack with
  | nil => exact fun _ => .enter fetched
  | cons enter outer =>
      dsimp only
      split
      · rename_i fault failed
        intro concerned
        cases concerned.symm.trans (Tape.concernsLoops_of_get failed)
      · split
        · exact .leave fetched
        · exact .again fetched
        · exact ⟨.leave fetched, .again fetched⟩

theorem steers_readInput
    (fetched : program.instruction? state.instructionPointer = some .read) :
    state.readInput.Steers program state.instructionPointer
      state.loopStack := by
  unfold readInput
  split
  · rename_i fault failed
    intro concerned
    cases concerned.symm.trans (Tape.concernsLoops_of_index? failed)
  · exact .advance fetched rfl

theorem steers_writeOutput
    (policy : OutputPolicy)
    (fetched : program.instruction? state.instructionPointer = some .write) :
    (state.writeOutput policy).Steers program state.instructionPointer
      state.loopStack := by
  unfold writeOutput
  split
  · rename_i fault failed
    intro concerned
    cases concerned.symm.trans (Tape.concernsLoops_of_get failed)
  · split
    · exact nofun
    · exact .advance fetched rfl

/-- Every instruction of a symbolic state moves on in this way. -/
theorem steers_of_effect?
    {policy : OutputPolicy}
    {effect : Effect}
    (effect_eq : state.effect? program policy = some effect) :
    effect.Steers program state.instructionPointer state.loopStack := by
  obtain ⟨opcode, fetched, rfl⟩ := Option.map_eq_some_iff.mp effect_eq
  cases opcode with
  | moveRight => exact .advance fetched rfl
  | moveLeft => exact .advance fetched rfl
  | increment => exact steers_changeCell _ fetched rfl
  | decrement => exact steers_changeCell _ fetched rfl
  | loopEnter => exact steers_testAtEnter fetched
  | loopExit => exact steers_testAtExit fetched
  | read => exact steers_readInput fetched
  | write => exact steers_writeOutput policy fetched
  | comment character => exact .advance fetched rfl

end Steers
end State

/-! ## The concrete machine -/

namespace Machine

/-- What an instruction leads to moves on, or it is a fault. -/
def Steers
    (program : Program)
    (location : Nat)
    (stack : List Nat) : Except Fault Machine -> Prop
  | .ok next =>
      program.Moves location stack next.instructionPointer next.loopStack
  | .error fault =>
      fault.concernsLoops = true -> program.Lacks location stack fault

theorem concernsLoops_of_reach
    {tape : ByteTape}
    {pointer : Int64}
    {fault : Fault}
    (failed : tape.reach pointer = .error fault) :
    fault.concernsLoops = false := by
  unfold ByteTape.reach at failed
  split at failed
  · cases failed
    rfl
  · split at failed
    · cases failed
    · split at failed
      · cases failed
      · cases failed
        rfl

/-- An access to the tape fails only off the tape. -/
theorem concernsLoops_of_access
    {tape : ByteTape}
    {pointer : Int64}
    {access : ByteTape -> α}
    {fault : Fault}
    (failed : (tape.reach pointer >>= fun reached => pure (access reached)) =
      .error fault) :
    fault.concernsLoops = false := by
  cases reached : tape.reach pointer with
  | error reason =>
      rw [reached] at failed
      cases failed
      exact concernsLoops_of_reach reached
  | ok reachedTape =>
      rw [reached] at failed
      cases failed

section Steers

variable {program : Program} {location : Nat} {stack : List Nat}

/-- An instruction whose first part can fail for other reasons only. -/
theorem steers_bind
    {result : Except Fault α}
    {next : α -> Except Fault Machine}
    (otherwise : ∀ {fault}, result = .error fault ->
      fault.concernsLoops = false)
    (steers : ∀ value, Steers program location stack (next value)) :
    Steers program location stack (result >>= next) := by
  cases result with
  | error fault =>
      intro concerned
      cases concerned.symm.trans (otherwise rfl)
  | ok value => exact steers value

/-- Every instruction of the machine moves on in this way. -/
theorem steers_execute
    {machine : Machine}
    {opcode : Opcode}
    (input : InputStream)
    (fetched : program.instruction? machine.instructionPointer =
      some opcode) :
    Steers program machine.instructionPointer machine.loopStack
      (machine.execute program input opcode) := by
  obtain ⟨instructionPointer, pointer, loopStack, tape, reads, output⟩ :=
    machine
  dsimp only at fetched ⊢
  cases opcode with
  | moveRight => exact .advance fetched rfl
  | moveLeft => exact .advance fetched rfl
  | increment =>
      refine steers_bind concernsLoops_of_access fun _ => ?_
      exact steers_bind concernsLoops_of_access fun _ => .advance fetched rfl
  | decrement =>
      refine steers_bind concernsLoops_of_access fun _ => ?_
      exact steers_bind concernsLoops_of_access fun _ => .advance fetched rfl
  | loopEnter =>
      refine steers_bind concernsLoops_of_access fun _ => ?_
      dsimp only
      split
      · split
        · rename_i unmatched
          exact fun _ => .exit fetched unmatched
        · rename_i exit matched
          exact .skip matched
      · exact .enter fetched
  | loopExit =>
      cases loopStack with
      | nil => exact fun _ => .enter fetched
      | cons enter outer =>
          refine steers_bind concernsLoops_of_access fun _ => ?_
          dsimp only
          split
          · exact .leave fetched
          · exact .again fetched
  | read =>
      exact steers_bind concernsLoops_of_access fun _ => .advance fetched rfl
  | write =>
      exact steers_bind concernsLoops_of_access fun _ => .advance fetched rfl
  | comment character => exact .advance fetched rfl

end Steers
end Machine

/-! ## The invariant -/

namespace Program

open Brackets

/-- The loops that are open at a location, outermost first: the enters before
it that have no exit or whose exit is not before it. -/
def openLoops (program : Program) (location : Nat) : List Nat :=
  (List.range location).filter fun enter =>
    program.instruction? enter = some .loopEnter
      && (program.matchingExit? enter).all (location ≤ ·)

/-- The location is in the program or at its end, and the stack holds the loops
that are open there. -/
structure OnTrack
    (program : Program)
    (location : Nat)
    (stack : List Nat) : Prop where
  inProgram : location ≤ program.size
  stacked : Stacked program.instructions.toList location stack

theorem onTrack_start (program : Program) : program.OnTrack 0 [] :=
  ⟨Nat.zero_le _, stacked_zero _⟩

section OnTrack

variable {program : Program} {location : Nat} {stack : List Nat}

theorem lt_size_of_instruction?
    {opcode : Opcode}
    (fetched : program.instruction? location = some opcode) :
    location < program.size :=
  (Array.getElem?_eq_some_iff.mp fetched).1

/-- Every move keeps the stack. -/
theorem OnTrack.moves
    {next : Nat}
    {after : List Nat}
    (matched : program.WellMatched)
    (onTrack : program.OnTrack location stack)
    (moves : program.Moves location stack next after) :
    program.OnTrack next after := by
  cases moves with
  | @advance opcode _ fetched plain =>
      refine ⟨lt_size_of_instruction? fetched, onTrack.stacked.plain ?_ ?_⟩
      · rw [getElem?_toList_instructions, fetched]
        rintro ⟨⟩
        cases plain
      · rw [getElem?_toList_instructions, fetched]
        rintro ⟨⟩
        cases plain
  | enter fetched =>
      refine ⟨lt_size_of_instruction? fetched, onTrack.stacked.enter ?_⟩
      rw [getElem?_toList_instructions, fetched]
  | skip exit_eq =>
      have partners := matched.matchingExit?_eq_some_iff.mp exit_eq
      exact ⟨partners.exit_lt_length, partners.stacked_iff.mpr onTrack.stacked⟩
  | leave fetched =>
      refine ⟨lt_size_of_instruction? fetched, onTrack.stacked.exit ?_⟩
      rw [getElem?_toList_instructions, fetched]
  | @again enter _ fetched =>
      have isExit := fetched
      rw [← getElem?_toList_instructions] at isExit
      have partners := onTrack.stacked.partners isExit
      exact ⟨partners.before.trans (lt_size_of_instruction? fetched),
        onTrack.stacked.repeat isExit⟩

/-- The stack is the list of open loops. -/
theorem OnTrack.reverse_eq_openLoops
    (matched : program.WellMatched)
    (onTrack : program.OnTrack location stack) :
    stack.reverse = program.openLoops location := by
  have increasing : (program.openLoops location).SortedLT :=
    (List.pairwise_lt_range.filter _).sortedLT
  refine (List.sortedLT_reverse.mpr onTrack.stacked.decreasing).eq_of_mem_iff
    increasing ?_
  intro enter
  rw [List.mem_reverse, onTrack.stacked.mem_iff, isOpen_iff,
    getElem?_toList_instructions]
  simp [openLoops, Option.all_eq_true, ← matched.matchingExit?_eq_some_iff]

/-- At a loop exit the top of the stack is its enter, if it has one. -/
theorem OnTrack.head?_eq_matchingEnter?
    (matched : program.WellMatched)
    (onTrack : program.OnTrack location stack)
    (fetched : program.instruction? location = some .loopExit) :
    stack.head? = program.matchingEnter? location := by
  rw [← getElem?_toList_instructions] at fetched
  symm
  cases stack with
  | nil =>
      apply Option.eq_none_iff_forall_ne_some.mpr
      intro enter enter_eq
      exact onTrack.stacked.not_partners
        (matched.matchingEnter?_eq_some_iff.mp enter_eq)
  | cons enter outer =>
      exact matched.matchingEnter?_eq_some_iff.mpr
        (onTrack.stacked.partners fetched)

/-- A fault is explained by the loops that are open where it arises: if it
concerns the loops, a loop instruction lacks its partner. -/
def Explains (program : Program) (fault : Located Fault) : Prop :=
  ∃ stack, program.OnTrack fault.location stack ∧
    (fault.payload.concernsLoops = true ->
      program.Lacks fault.location stack fault.payload)

section Precomputed

variable {source : String}

/-- Where the loops were matched at loading, no loop instruction lacks its
partner. -/
theorem OnTrack.not_lacks
    {fault : Fault}
    (loaded : load source .precomputed = .ok program)
    (onTrack : program.OnTrack location stack) :
    ¬program.Lacks location stack fault := by
  intro lacks
  cases lacks with
  | enter fetched =>
      obtain ⟨enter, enter_eq⟩ := exists_matchingEnter?_of_load loaded fetched
      exact onTrack.stacked.not_partners
        ((wellMatched_of_load loaded).matchingEnter?_eq_some_iff.mp enter_eq)
  | exit fetched unmatched =>
      obtain ⟨exit, exit_eq⟩ := exists_matchingExit?_of_load loaded fetched
      cases unmatched.symm.trans exit_eq

/-- Where the loops were matched at loading, no fault concerns them. -/
theorem Explains.concernsLoops_eq_false
    {fault : Located Fault}
    (loaded : load source .precomputed = .ok program)
    (explained : program.Explains fault) :
    fault.payload.concernsLoops = false := by
  obtain ⟨stack, onTrack, lacks⟩ := explained
  apply Bool.eq_false_of_not_eq_true
  intro concerned
  exact onTrack.not_lacks loaded (lacks concerned)

/-- Where the loops were matched at loading, none is open at the end. -/
theorem OnTrack.eq_nil_of_size_le
    (loaded : load source .precomputed = .ok program)
    (onTrack : program.OnTrack location stack)
    (ended : program.size ≤ location) :
    stack = [] := by
  apply List.eq_nil_iff_forall_not_mem.mpr
  intro enter member
  have isOpen := (onTrack.stacked.mem_iff enter).mp member
  obtain ⟨map, described⟩ := describes_of_load loaded
  obtain ⟨exit, partners⟩ := described.enters isOpen.isEnter
  have notClosed := isOpen.le_exit partners
  have inBounds : exit < program.size := partners.exit_lt_length
  omega

end Precomputed
end OnTrack
end Program

/-! ## Runs -/

section Runs

variable {program : Program}

namespace State

/-- The stack of a state is that of its instruction pointer. -/
def OnTrack (program : Program) (state : State) : Prop :=
  program.OnTrack state.instructionPointer state.loopStack

variable {policy : OutputPolicy} {state : State}

theorem OnTrack.effect
    {effect : Effect}
    (matched : program.WellMatched)
    (onTrack : OnTrack program state)
    (effect_eq : state.effect? program policy = some effect) :
    effect.All (OnTrack program) := by
  have steers := steers_of_effect? effect_eq
  cases effect with
  | next after => exact Program.OnTrack.moves matched onTrack steers
  | split zero nonZero =>
      exact ⟨Program.OnTrack.moves matched onTrack steers.1,
        Program.OnTrack.moves matched onTrack steers.2⟩
  | fault after reason => trivial

theorem Reachable.onTrack
    {capacity : Nat}
    (matched : program.WellMatched)
    (reachable : Reachable program policy capacity state) :
    OnTrack program state :=
  reachable.invariant program.onTrack_start
    (fun onTrack effect_eq => onTrack.effect matched effect_eq) id

/-- A fault of a slice is explained. -/
theorem OnTrack.explains_of_faulted
    {budget : Nat}
    {after : State}
    {fault : Located Fault}
    (matched : program.WellMatched)
    (onTrack : OnTrack program state)
    (faulted : (state.step program policy budget).outcome =
      .faulted after fault) :
    program.Explains fault := by
  have reaches := reaches_step program policy budget state
  generalize state.step program policy budget = slice at reaches faulted
  cases reaches with
  | advanced runs notDone => cases faulted
  | done runs isDone => cases faulted
  | forked runs effect_eq => cases faulted
  | @faulted count last _ reason runs effect_eq =>
      cases faulted
      have lastOnTrack := runs.preserves
        (fun onTrack effect_eq => onTrack.effect matched effect_eq) onTrack
      exact ⟨last.loopStack, lastOnTrack, steers_of_effect? effect_eq⟩

end State

namespace Machine

variable {input : InputStream} {machine : Machine}

theorem onTrack_of_execute
    {opcode : Opcode}
    {next : Machine}
    (matched : program.WellMatched)
    (onTrack : program.OnTrack machine.instructionPointer machine.loopStack)
    (fetched : program.instruction? machine.instructionPointer = some opcode)
    (executed : machine.execute program input opcode = .ok next) :
    program.OnTrack next.instructionPointer next.loopStack := by
  have steers := steers_execute input fetched
  rw [executed] at steers
  exact onTrack.moves matched steers

theorem onTrack_of_after?
    {count : Nat}
    {last : Machine}
    (matched : program.WellMatched)
    (onTrack : program.OnTrack machine.instructionPointer machine.loopStack)
    (executed : machine.after? program input count = some last) :
    program.OnTrack last.instructionPointer last.loopStack := by
  induction count generalizing machine with
  | zero =>
      cases executed
      exact onTrack
  | succ count inductionHypothesis =>
      unfold after? at executed
      split at executed
      · cases executed
      · rename_i opcode fetched
        split at executed
        · cases executed
        · rename_i next next_eq
          exact inductionHypothesis
            (onTrack_of_execute matched onTrack fetched next_eq) executed

/-- A fault of a run is explained. -/
theorem explains_of_run
    {fuel : Nat}
    {fault : Located Fault}
    (matched : program.WellMatched)
    (onTrack : program.OnTrack machine.instructionPointer machine.loopStack)
    (failed : machine.run program input fuel = some (.error fault)) :
    program.Explains fault := by
  induction fuel generalizing machine with
  | zero =>
      rw [run.eq_def] at failed
      cases fetched : program.instruction? machine.instructionPointer <;>
        simp [fetched] at failed
  | succ fuel inductionHypothesis =>
      rw [run.eq_def] at failed
      cases fetched : program.instruction? machine.instructionPointer with
      | none => simp [fetched] at failed
      | some opcode =>
          have steers := steers_execute input fetched
          simp only [fetched] at failed
          cases executed : machine.execute program input opcode with
          | error reason =>
              simp only [executed, Option.some_inj, Except.error.injEq]
                at failed
              rw [executed] at steers
              subst failed
              exact ⟨machine.loopStack, onTrack, steers⟩
          | ok next =>
              simp only [executed] at failed
              exact inductionHypothesis
                (onTrack_of_execute matched onTrack fetched executed) failed

end Machine
end Runs

namespace Program

/-- The locations at which a program can be, each with its loop stack: those of
the symbolic states that can be reached, and those of the machine after any
number of instructions. -/
inductive Visits (program : Program) : Nat -> List Nat -> Prop
  | symbolic
      {policy : OutputPolicy}
      {capacity : Nat}
      {state : State}
      (reachable : State.Reachable program policy capacity state) :
      Visits program state.instructionPointer state.loopStack
  | concrete
      {bound : TapeBound}
      {input : InputStream}
      {count : Nat}
      {machine : Machine}
      (executed : (Machine.initial bound).after? program input count =
        some machine) :
      Visits program machine.instructionPointer machine.loopStack

theorem Visits.onTrack
    {program : Program}
    {location : Nat}
    {stack : List Nat}
    (matched : program.WellMatched)
    (visits : program.Visits location stack) :
    program.OnTrack location stack := by
  cases visits with
  | symbolic reachable => exact reachable.onTrack matched
  | concrete executed =>
      exact Machine.onTrack_of_after? matched program.onTrack_start executed

end Program

/-- The loop stack is determined by the instruction pointer, in the symbolic
states and in the machine alike, and whether or not the loops are balanced: it
holds the loops that are open there.  At a loop exit its top is the enter of the
loop, and it is empty if there is none.  Where the loops were matched when the
program was loaded, no fault concerns the loops and no loop is open at the
end. -/
theorem loop_stack_is_determined
    {source : String}
    {matching : Matching}
    {program : Program}
    (loaded : Program.load source matching = .ok program) :
    (∀ {location stack}, program.Visits location stack ->
      location ≤ program.size ∧
        stack.reverse = program.openLoops location ∧
        (program.instruction? location = some .loopExit ->
          stack.head? = program.matchingEnter? location)) ∧
      (matching = .precomputed ->
        (∀ {location stack}, program.Visits location stack ->
          program.size ≤ location -> stack = []) ∧
        (∀ {policy capacity state budget after fault},
          State.Reachable program policy capacity state ->
            (state.step program policy budget).outcome =
                .faulted after fault ->
              fault.payload ≠ .unbalancedLoop ∧
                fault.payload ≠ .noMatchingLoopExit) ∧
        (∀ {bound input fuel fault},
          (Machine.initial bound).run program input fuel =
              some (.error fault) ->
            fault.payload ≠ .unbalancedLoop ∧
              fault.payload ≠ .noMatchingLoopExit)) := by
  have matched := Program.wellMatched_of_load loaded
  constructor
  · intro location stack visits
    have onTrack := visits.onTrack matched
    exact ⟨onTrack.inProgram, onTrack.reverse_eq_openLoops matched,
      onTrack.head?_eq_matchingEnter? matched⟩
  · rintro rfl
    have otherwise {fault : Located Fault}
        (explained : program.Explains fault) :
        fault.payload ≠ .unbalancedLoop ∧
          fault.payload ≠ .noMatchingLoopExit := by
      have unconcerned := explained.concernsLoops_eq_false loaded
      constructor
      · intro same
        rw [same] at unconcerned
        cases unconcerned
      · intro same
        rw [same] at unconcerned
        cases unconcerned
    refine ⟨?_, ?_, ?_⟩
    · intro location stack visits
      exact (visits.onTrack matched).eq_nil_of_size_le loaded
    · intro policy capacity state budget after fault reachable faulted
      exact otherwise
        ((reachable.onTrack matched).explains_of_faulted matched faulted)
    · intro bound input fuel fault failed
      exact otherwise
        (Machine.explains_of_run matched program.onTrack_start failed)

/-- Two loops of which the outer one is never closed. -/
def unclosedLoop : Program :=
  ⟨#[.increment, .loopEnter, .loopEnter, .moveRight, .read, .loopExit], none⟩

/-- A loop that counts down. -/
def countdown : Program :=
  ⟨#[.increment, .loopEnter, .decrement, .loopExit],
    some ⟨#[none, some 3, none, some 1]⟩⟩

/-- A state in front of the exit of the inner loop is in both loops.  If the byte
that was read is zero, it leaves the inner one and ends in the outer one.  The
loop that counts down is open in its body and is not open at the end. -/
theorem loop_stack_is_determined_unclosed :
    Program.load "+[[>,]" .lazy = .ok unclosedLoop ∧
      (∃ state,
        State.Reachable unclosedLoop .rejectSymbolic 2 state ∧
          state.instructionPointer = 5 ∧ state.loopStack = [2, 1] ∧
          state.loopStack.reverse = unclosedLoop.openLoops 5 ∧
          state.loopStack.head? = unclosedLoop.matchingEnter? 5) ∧
      (∃ state,
        State.Reachable unclosedLoop .rejectSymbolic 2 state ∧
          state.constraint =
            Constraint.trivial.and (.isZero (.symbol (inputName 0))) ∧
          state.isDone unclosedLoop = true ∧ state.loopStack = [1] ∧
          state.loopStack.reverse = unclosedLoop.openLoops 6) ∧
      Program.load "+[-]" .precomputed = .ok countdown ∧
      countdown.Visits 2 [1] ∧
      [1] = countdown.openLoops 2 ∧
      ∀ stack, countdown.Visits 4 stack -> stack = [] := by
  have unclosedLoaded : Program.load "+[[>,]" .lazy = .ok unclosedLoop := by
    decide
  have countdownLoaded : Program.load "+[-]" .precomputed = .ok countdown := by
    decide
  obtain ⟨inner, innerReachable, innerAt, innerStack, outer, outerReachable,
      outerAt, outerConstraint, outerStack⟩ :
      ∃ inner, State.Reachable unclosedLoop .rejectSymbolic 2 inner ∧
        inner.instructionPointer = 5 ∧ inner.loopStack = [2, 1] ∧
        ∃ outer, State.Reachable unclosedLoop .rejectSymbolic 2 outer ∧
          outer.instructionPointer = 6 ∧
          outer.constraint =
            Constraint.trivial.and (.isZero (.symbol (inputName 0))) ∧
          outer.loopStack = [1] := by
    have first : State.Reachable unclosedLoop .rejectSymbolic 2 _ :=
      .step 5 .initial (.head _)
    exact ⟨_, first, rfl, rfl, _, .step 1 first (.head _), rfl, rfl, rfl⟩
  have inBody : countdown.Visits 2 [1] :=
    .concrete (show (Machine.initial (.fixed 1)).after? countdown
      (.ofBytes #[]) 2 = some ⟨2, 0, [1], ⟨.fixed 1, #[1]⟩, 0, #[]⟩ by rfl)
  obtain ⟨determinedUnclosed, -⟩ := loop_stack_is_determined unclosedLoaded
  obtain ⟨-, innerOpen, innerTop⟩ :=
    determinedUnclosed (.symbolic innerReachable)
  obtain ⟨-, outerOpen, -⟩ := determinedUnclosed (.symbolic outerReachable)
  rw [innerAt] at innerOpen innerTop
  rw [outerAt] at outerOpen
  obtain ⟨determined, balanced⟩ := loop_stack_is_determined countdownLoaded
  refine ⟨unclosedLoaded,
    ⟨inner, innerReachable, innerAt, innerStack, innerOpen, innerTop rfl⟩,
    ⟨outer, outerReachable, outerConstraint, ?_, outerStack, outerOpen⟩,
    countdownLoaded, inBody, (determined inBody).2.1, ?_⟩
  · unfold State.isDone
    rw [outerAt]
    rfl
  intro stack atEnd
  exact (balanced rfl).1 atEnd (Nat.le_refl 4)

end SymbolicTape
