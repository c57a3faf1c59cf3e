import Mathlib.Logic.Function.Basic
import Std.Data.String.ToNat
import SymbolicTape.Machine
import SymbolicTape.Proofs.Execution
import SymbolicTape.Proofs.Feasibility

/-!
# Symbolic states simulate the concrete machine

An assignment of bytes to the names of the input turns a symbolic state into a
state of the concrete machine: every cell and every value written becomes the
byte that it stands for.  The machine that reads those bytes follows the path of
every symbolic state whose constraint the assignment satisfies, instruction by
instruction, and arrives in exactly this state.

Two faults of a symbolic state say more than that one input leads to a fault.  A
loop without an exit faults as soon as some input would skip it, and a value
that depends on the input may be refused as output.  All other faults are faults
of the machine.
-/

namespace SymbolicTape

/-! ## Concrete runs of a given length -/

namespace Machine

/-- The machine after a number of instructions, if there are so many and none
of them faults. -/
def after?
    (program : Program)
    (input : InputStream) : (count : Nat) -> Machine -> Option Machine
  | 0, machine => some machine
  | count + 1, machine =>
      match program.instruction? machine.instructionPointer with
      | none => none
      | some opcode =>
          match machine.execute program input opcode with
          | .error _ => none
          | .ok next => next.after? program input count

/-- Instructions that were executed can be taken off the front of a run. -/
theorem run_of_after?
    {program : Program}
    {input : InputStream}
    {count : Nat}
    {machine last : Machine}
    (executed : machine.after? program input count = some last)
    (fuel : Nat) :
    machine.run program input (count + fuel) =
      last.run program input fuel := by
  induction count generalizing machine with
  | zero =>
      cases executed
      rw [Nat.zero_add]
  | succ count inductionHypothesis =>
      unfold after? at executed
      split at executed
      · cases executed
      · rename_i opcode fetched
        split at executed
        · cases executed
        · rename_i next next_eq
          rw [Nat.add_right_comm, run.eq_def]
          simp only [fetched, next_eq]
          exact inductionHypothesis executed

/-- A machine that executes more instructions than the bound allows does not halt
within the bound. -/
theorem run_eq_none_of_after?
    {program : Program}
    {input : InputStream}
    {count fuel : Nat}
    {machine last : Machine}
    (executed : machine.after? program input count = some last)
    (fewer : fuel < count) :
    machine.run program input fuel = none := by
  induction count generalizing fuel machine with
  | zero => exact absurd fewer (Nat.not_lt_zero fuel)
  | succ count inductionHypothesis =>
      unfold after? at executed
      split at executed
      · cases executed
      · rename_i opcode fetched
        split at executed
        · cases executed
        · rename_i next next_eq
          rw [run.eq_def]
          cases fuel with
          | zero => simp only [fetched]
          | succ fuel =>
              simp only [fetched, next_eq]
              exact inductionHypothesis executed (Nat.lt_of_succ_lt_succ fewer)

/-- One more instruction can be added at the end. -/
theorem after?_succ
    {program : Program}
    {input : InputStream}
    {count : Nat}
    {machine last next : Machine}
    {opcode : Opcode}
    (executed : machine.after? program input count = some last)
    (fetched : program.instruction? last.instructionPointer = some opcode)
    (next_eq : last.execute program input opcode = .ok next) :
    machine.after? program input (count + 1) = some next := by
  induction count generalizing machine with
  | zero =>
      cases executed
      simp [after?, fetched, next_eq]
  | succ count inductionHypothesis =>
      unfold after? at executed ⊢
      split at executed
      · cases executed
      · split at executed
        · cases executed
        · exact inductionHypothesis executed

end Machine

/-! ## The concrete state under an assignment -/

/-- An assignment gives every input byte the value that the stream stores at
its read. -/
def Assignment.Agrees (assignment : Assignment) (input : InputStream) : Prop :=
  ∀ index, assignment (inputName index) = input index

/-- Different reads have different names. -/
theorem inputName_injective : Function.Injective inputName := by
  intro first second same
  have digits : toString first = toString second := by
    simpa [inputName] using same
  exact Nat.repr_inj.mp digits

namespace InputStream

/-- The assignment under which every read stores the byte of a stream. -/
noncomputable def assignment (input : InputStream) : Assignment :=
  Function.extend inputName input fun _ => endOfInput

theorem agrees_assignment (input : InputStream) :
    input.assignment.Agrees input := by
  intro index
  exact inputName_injective.extend_apply input _ index

end InputStream

namespace Tape

/-- The bytes that the cells stand for. -/
def concretize (assignment : Assignment) (tape : Tape) : ByteTape :=
  ⟨.fixed tape.capacity,
    Array.ofFn fun index => (tape.cell index).eval assignment⟩

/-- The bytes of the blank tape are zeros. -/
theorem concretize_blank (assignment : Assignment) (capacity : Nat) :
    (blank capacity).concretize assignment =
      ByteTape.blank (.fixed capacity) := by
  unfold concretize ByteTape.blank
  congr 1
  apply Array.ext
  · simp [blank]
  · intro index inTape inReplicate
    simp [cell, blank, blankPage, Value.zero]

/-- Both tapes have the same cells. -/
theorem reach_concretize
    (assignment : Assignment)
    (tape : Tape)
    (pointer : Int64) :
    (tape.concretize assignment).reach pointer =
      (tape.index? pointer).map fun _ => tape.concretize assignment := by
  unfold ByteTape.reach index? concretize
  dsimp only
  rw [Array.size_ofFn]
  by_cases negative : pointer < 0
  · have offTape : ¬(0 ≤ pointer ∧ pointer.toNatClampNeg < tape.capacity) :=
      fun onTape => absurd negative (Int64.not_lt.mpr onTape.1)
    rw [if_pos negative, dif_neg offTape]
    rfl
  · have nonNegative : 0 ≤ pointer := Int64.not_lt.mp negative
    rw [if_neg negative]
    by_cases inside : pointer.toNatClampNeg < tape.capacity
    · rw [if_pos inside, dif_pos ⟨nonNegative, inside⟩]
      rfl
    · rw [if_neg inside, dif_neg fun onTape => inside onTape.2]
      rfl

/-- The byte at a pointer is the one that the value there stands for. -/
theorem get_concretize
    (assignment : Assignment)
    (tape : Tape)
    (pointer : Int64) :
    (tape.concretize assignment).get pointer =
      (tape.get pointer).map fun value =>
        (value.eval assignment, tape.concretize assignment) := by
  unfold ByteTape.get get
  rw [reach_concretize]
  unfold index?
  split
  · rename_i onTape
    have byte : (tape.concretize assignment).cells.getD
        pointer.toNatClampNeg 0 =
          (tape.cell ⟨pointer.toNatClampNeg, onTape.2⟩).eval assignment := by
      simp [concretize, Array.getD, onTape.2]
    exact congrArg (fun byte => Except.ok (byte, tape.concretize assignment))
      byte
  · rfl

/-- Storing a value stores the byte that it stands for. -/
theorem set_concretize
    (assignment : Assignment)
    (tape : Tape)
    (pointer : Int64)
    (value : Value) :
    (tape.concretize assignment).set pointer (value.eval assignment) =
      (tape.index? pointer).map fun index =>
        (tape.store index value).concretize assignment := by
  unfold ByteTape.set
  rw [reach_concretize]
  unfold index?
  split
  · rename_i onTape
    have cells_eq :
        (Array.ofFn fun index => (tape.cell index).eval assignment).setIfInBounds
            pointer.toNatClampNeg (value.eval assignment) =
          Array.ofFn fun index =>
            ((tape.store ⟨pointer.toNatClampNeg, onTape.2⟩ value).cell
              index).eval assignment := by
      apply Array.ext
      · rw [Array.size_setIfInBounds, Array.size_ofFn, Array.size_ofFn]
        rfl
      · intro index inBefore inAfter
        have inTape : index < tape.capacity := by simpa using inBefore
        have stored := cell_store tape ⟨pointer.toNatClampNeg, onTape.2⟩
          ⟨index, inTape⟩ value
        rw [Array.getElem_setIfInBounds (by simpa using inTape),
          Array.getElem_ofFn, Array.getElem_ofFn]
        refine Eq.trans ?_ (congrArg (Value.eval assignment) stored).symm
        by_cases same : pointer.toNatClampNeg = index
        · subst same
          simp
        · have differ : (⟨index, inTape⟩ : Fin tape.capacity) ≠
              ⟨pointer.toNatClampNeg, onTape.2⟩ :=
            fun equal => same (congrArg Fin.val equal).symm
          rw [if_neg same, if_neg differ]
    exact congrArg
      (fun cells => Except.ok (ByteTape.mk (.fixed tape.capacity) cells))
      cells_eq
  · rfl

end Tape

/-- Whether a fault arises from what the machine is doing and not from what is
unknown about the input. -/
def Fault.isUnconditional : Fault -> Bool
  | .memoryAccess _ _ => true
  | .unbalancedLoop => true
  | .noMatchingLoopExit => false
  | .unsupportedConcretization _ => false

/-- A pointer off the tape is a fault of the machine. -/
theorem Tape.isUnconditional_of_index?
    {tape : Tape}
    {pointer : Int64}
    {fault : Fault}
    (failed : tape.index? pointer = .error fault) :
    fault.isUnconditional = true := by
  unfold index? at failed
  split at failed
  · cases failed
  · cases failed
    rfl

theorem Tape.isUnconditional_of_get
    {tape : Tape}
    {pointer : Int64}
    {fault : Fault}
    (failed : tape.get pointer = .error fault) :
    fault.isUnconditional = true := by
  unfold get at failed
  cases found : tape.index? pointer with
  | error reason =>
      rw [found] at failed
      cases failed
      exact isUnconditional_of_index? found
  | ok index =>
      rw [found] at failed
      cases failed

namespace State

/-- The state of the concrete machine that a symbolic state stands for. -/
def concretize (assignment : Assignment) (state : State) : Machine :=
  { instructionPointer := state.instructionPointer
    pointer := state.pointer
    loopStack := state.loopStack
    tape := state.tape.concretize assignment
    reads := state.inputCounter
    output := state.output.map (Value.eval assignment) }

/-- A program starts in the same state on both machines. -/
theorem concretize_initial (assignment : Assignment) (capacity : Nat) :
    (State.initial capacity).concretize assignment =
      Machine.initial (.fixed capacity) := by
  simp [concretize, State.initial, Machine.initial, Tape.concretize_blank]

end State

/-- What the machine does under an assignment agrees with the effect of the
same instruction on a symbolic state. -/
def Effect.Simulates
    (assignment : Assignment)
    (result : Except Fault Machine) : Effect -> Prop
  | .next after => result = .ok (after.concretize assignment)
  | .split zero nonZero =>
      (zero.constraint.holds assignment = true ->
        result = .ok (zero.concretize assignment)) ∧
      (nonZero.constraint.holds assignment = true ->
        result = .ok (nonZero.concretize assignment))
  | .fault _ reason =>
      reason.isUnconditional = true -> result = .error reason

namespace State

/-- Changing a cell is reading a byte and storing the changed one. -/
theorem simulates_changeCell
    (change : Value -> Value)
    (changeByte : UInt8 -> UInt8)
    {assignment : Assignment}
    (changes : ∀ value : Value,
      (change value).eval assignment = changeByte (value.eval assignment))
    (state : State) :
    (state.changeCell change).Simulates assignment (do
      let (byte, tape) <- (state.tape.concretize assignment).get state.pointer
      let tape <- tape.set state.pointer (changeByte byte)
      return { state.concretize assignment with
        instructionPointer := state.instructionPointer + 1
        tape := tape }) := by
  unfold changeCell
  rw [Tape.get_concretize]
  unfold Tape.get
  cases found : state.tape.index? state.pointer with
  | error fault => exact fun _ => rfl
  | ok index =>
      have stored := Tape.set_concretize assignment state.tape state.pointer
        (change (state.tape.cell index))
      rw [changes, found] at stored
      simp only [Effect.Simulates, Except.map, bind, Except.bind, stored]
      rfl

/-- On the side of a split that assumes a cell to be zero, it is. -/
theorem eval_eq_zero_of_assume
    {assignment : Assignment}
    {value : Value}
    {whenZero : Predicate}
    {state : State}
    (tested : value.zeroTest = .undetermined whenZero)
    (satisfied :
      (state.assume whenZero).constraint.holds assignment = true) :
    value.eval assignment = 0 := by
  unfold assume at satisfied
  rw [Constraint.holds_and, Bool.and_eq_true] at satisfied
  exact (Value.holds_of_zeroTest assignment tested).mp satisfied.2

theorem eval_ne_zero_of_assume
    {assignment : Assignment}
    {value : Value}
    {whenZero : Predicate}
    {state : State}
    (tested : value.zeroTest = .undetermined whenZero)
    (satisfied :
      (state.assume whenZero.negate).constraint.holds assignment = true) :
    value.eval assignment ≠ 0 := by
  unfold assume at satisfied
  rw [Constraint.holds_and, Bool.and_eq_true, Predicate.holds_negate]
    at satisfied
  intro isZero
  rw [(Value.holds_of_zeroTest assignment tested).mpr isZero] at satisfied
  cases satisfied.2

theorem simulates_testAtEnter
    (program : Program)
    (input : InputStream)
    (assignment : Assignment)
    (state : State) :
    (state.testAtEnter program).Simulates assignment
      ((state.concretize assignment).execute program input .loopEnter) := by
  unfold testAtEnter
  simp only [Machine.execute, concretize]
  rw [Tape.get_concretize]
  cases state.tape.get state.pointer with
  | error fault => exact fun _ => rfl
  | ok value =>
      simp only [Except.map, bind, Except.bind]
      cases tested : value.zeroTest with
      | nonZero =>
          rw [if_neg (Value.eval_ne_zero_of_zeroTest assignment tested)]
          rfl
      | zero =>
          rw [if_pos (Value.eval_eq_zero_of_zeroTest assignment tested)]
          cases program.matchingExit? state.instructionPointer with
          | none => exact fun _ => rfl
          | some exit => rfl
      | undetermined whenZero =>
          cases program.matchingExit? state.instructionPointer with
          | none =>
              intro unconditional
              cases unconditional
          | some exit =>
              constructor
              · intro satisfied
                rw [if_pos (eval_eq_zero_of_assume tested satisfied)]
                rfl
              · intro satisfied
                rw [if_neg (eval_ne_zero_of_assume tested satisfied)]
                rfl

theorem simulates_testAtExit
    (program : Program)
    (input : InputStream)
    (assignment : Assignment)
    (state : State) :
    state.testAtExit.Simulates assignment
      ((state.concretize assignment).execute program input .loopExit) := by
  obtain ⟨instructionPointer, pointer, loopStack, tape, constraint,
    inputCounter, output, steps⟩ := state
  unfold testAtExit
  simp only [Machine.execute, concretize]
  cases loopStack with
  | nil => exact fun _ => rfl
  | cons enter outer =>
      dsimp only
      rw [Tape.get_concretize]
      cases tape.get pointer with
      | error fault => exact fun _ => rfl
      | ok value =>
          simp only [Except.map, bind, Except.bind]
          cases tested : value.zeroTest with
          | zero =>
              rw [if_pos (Value.eval_eq_zero_of_zeroTest assignment tested)]
              rfl
          | nonZero =>
              rw [if_neg (Value.eval_ne_zero_of_zeroTest assignment tested)]
              rfl
          | undetermined whenZero =>
              constructor
              · intro satisfied
                rw [if_pos (eval_eq_zero_of_assume tested satisfied)]
                rfl
              · intro satisfied
                rw [if_neg (eval_ne_zero_of_assume tested satisfied)]
                rfl

theorem simulates_readInput
    (program : Program)
    {input : InputStream}
    {assignment : Assignment}
    (agrees : assignment.Agrees input)
    (state : State) :
    state.readInput.Simulates assignment
      ((state.concretize assignment).execute program input .read) := by
  have stored := Tape.set_concretize assignment state.tape state.pointer
    (Value.input (inputName state.inputCounter))
  have byte : (Value.input (inputName state.inputCounter)).eval assignment =
      input state.inputCounter := agrees state.inputCounter
  rw [byte] at stored
  unfold readInput
  simp only [Machine.execute, concretize]
  rw [stored]
  cases state.tape.index? state.pointer with
  | error fault => exact fun _ => rfl
  | ok index => rfl

theorem simulates_writeOutput
    (program : Program)
    (policy : OutputPolicy)
    (input : InputStream)
    (assignment : Assignment)
    (state : State) :
    (state.writeOutput policy).Simulates assignment
      ((state.concretize assignment).execute program input .write) := by
  unfold writeOutput
  simp only [Machine.execute, concretize]
  rw [Tape.get_concretize]
  cases state.tape.get state.pointer with
  | error fault => exact fun _ => rfl
  | ok value =>
      dsimp only
      split
      · exact nofun
      · simp [Effect.Simulates, Except.map, bind, Except.bind, pure,
          Except.pure, concretize, advance]

/-- The machine does what the symbolic state does, for every instruction. -/
theorem simulates_execute
    (program : Program)
    (policy : OutputPolicy)
    {input : InputStream}
    {assignment : Assignment}
    (agrees : assignment.Agrees input)
    (opcode : Opcode)
    (state : State) :
    (state.execute program policy opcode).Simulates assignment
      ((state.concretize assignment).execute program input opcode) := by
  cases opcode with
  | moveRight => rfl
  | moveLeft => rfl
  | increment =>
      exact simulates_changeCell (Value.add 1) (· + 1)
        (Value.eval_add assignment 1) state
  | decrement =>
      exact simulates_changeCell (Value.sub 1) (· - 1)
        (Value.eval_sub assignment 1) state
  | loopEnter => exact simulates_testAtEnter program input assignment state
  | loopExit => exact simulates_testAtExit program input assignment state
  | read => exact simulates_readInput program agrees state
  | write =>
      exact simulates_writeOutput program policy input assignment state
  | comment character => rfl

/-! ## Runs -/

/-- The machine executes as many instructions as the state has and is then in
the concrete state, provided that the assignment satisfies the constraint. -/
def Follows
    (program : Program)
    (input : InputStream)
    (assignment : Assignment)
    (capacity : Nat)
    (state : State) : Prop :=
  state.constraint.holds assignment = true ->
    (Machine.initial (.fixed capacity)).after? program input state.steps =
      some (state.concretize assignment)

section Follows

variable {program : Program} {policy : OutputPolicy}
variable {input : InputStream} {assignment : Assignment} {capacity : Nat}

theorem follows_initial :
    Follows program input assignment capacity (State.initial capacity) := by
  intro _
  rw [concretize_initial]
  rfl

/-- The instruction that a symbolic state executes next and what the machine
does there. -/
theorem simulates_of_effect?
    (agrees : assignment.Agrees input)
    {state : State}
    {effect : Effect}
    (effect_eq : state.effect? program policy = some effect) :
    ∃ opcode,
      program.instruction?
          (state.concretize assignment).instructionPointer = some opcode ∧
        effect.Simulates assignment
          ((state.concretize assignment).execute program input opcode) := by
  obtain ⟨opcode, fetched, rfl⟩ := Option.map_eq_some_iff.mp effect_eq
  exact ⟨opcode, fetched,
    simulates_execute program policy agrees opcode state.countStep⟩

/-- The machine follows a state through one more instruction, on either side of
a split. -/
theorem Follows.effect
    (agrees : assignment.Agrees input)
    {state : State}
    {effect : Effect}
    (follows : Follows program input assignment capacity state)
    (effect_eq : state.effect? program policy = some effect) :
    effect.All (Follows program input assignment capacity) := by
  obtain ⟨opcode, fetched, simulates⟩ :=
    simulates_of_effect? agrees effect_eq
  cases extends_of_effect? effect_eq with
  | next constraint_eq steps_eq =>
      intro satisfied
      rw [constraint_eq] at satisfied
      rw [steps_eq]
      exact Machine.after?_succ (follows satisfied) fetched simulates
  | split whenZero zero_eq nonZero_eq zeroSteps_eq nonZeroSteps_eq =>
      constructor
      · intro satisfied
        have before := satisfied
        rw [zero_eq, Constraint.holds_and, Bool.and_eq_true] at before
        rw [zeroSteps_eq]
        exact Machine.after?_succ (follows before.1) fetched
          (simulates.1 satisfied)
      · intro satisfied
        have before := satisfied
        rw [nonZero_eq, Constraint.holds_and, Bool.and_eq_true] at before
        rw [nonZeroSteps_eq]
        exact Machine.after?_succ (follows before.1) fetched
          (simulates.2 satisfied)
  | fault fault => trivial

/-- The machine follows a state through a number of instructions. -/
theorem Follows.runs
    (agrees : assignment.Agrees input)
    {count : Nat}
    {state last : State}
    (follows : Follows program input assignment capacity state)
    (runs : Runs program policy count state last) :
    Follows program input assignment capacity last :=
  runs.preserves (fun follows effect_eq => follows.effect agrees effect_eq)
    follows

theorem Unfaulted.follows
    (agrees : assignment.Agrees input)
    {state : State}
    (unfaulted : Unfaulted program policy capacity state) :
    Follows program input assignment capacity state :=
  unfaulted.invariant follows_initial fun follows effect_eq =>
    follows.effect agrees effect_eq

/-- The machine ends where the state ends, with the same output. -/
theorem Follows.run_of_isDone
    {state : State}
    (follows : Follows program input assignment capacity state)
    (satisfied : state.constraint.holds assignment = true)
    (isDone : state.isDone program = true)
    (fuel : Nat) :
    (Machine.initial (.fixed capacity)).run program input
        (state.steps + fuel) =
      some (.ok (state.output.map (Value.eval assignment))) := by
  have ended : program.instruction? state.instructionPointer = none := by
    have noEffect := (@effect?_eq_none_iff program .recordSymbolic state).mpr
      isDone
    exact Option.map_eq_none_iff.mp noEffect
  rw [Machine.run_of_after? (follows satisfied), Machine.run.eq_def]
  simp only [concretize, ended]

/-- The machine faults at the instruction after those that a state has
executed. -/
theorem Follows.run_of_error
    {state : State}
    {opcode : Opcode}
    {fault : Fault}
    (follows : Follows program input assignment capacity state)
    (satisfied : state.constraint.holds assignment = true)
    (fetched : program.instruction?
      (state.concretize assignment).instructionPointer = some opcode)
    (faults : (state.concretize assignment).execute program input opcode =
      .error fault)
    (fuel : Nat) :
    (Machine.initial (.fixed capacity)).run program input
        (state.steps + (fuel + 1)) =
      some (.error ⟨state.instructionPointer, fault⟩) := by
  rw [Machine.run_of_after? (follows satisfied), Machine.run.eq_def]
  simp only [fetched, faults]
  rfl

/-- The machine faults where the state faults, unless the fault is one of a
symbolic state only. -/
theorem Follows.run_of_fault
    (agrees : assignment.Agrees input)
    {state after : State}
    {fault : Fault}
    (follows : Follows program input assignment capacity state)
    (satisfied : state.constraint.holds assignment = true)
    (effect_eq : state.effect? program policy = some (.fault after fault))
    (unconditional : fault.isUnconditional = true)
    (fuel : Nat) :
    (Machine.initial (.fixed capacity)).run program input
        (state.steps + (fuel + 1)) =
      some (.error ⟨state.instructionPointer, fault⟩) := by
  obtain ⟨opcode, fetched, simulates⟩ :=
    simulates_of_effect? agrees effect_eq
  exact follows.run_of_error satisfied fetched (simulates unconditional) fuel

end Follows
end State

/-- The machine follows every symbolic state on whose path nothing has faulted,
if the input satisfies its constraint.  It faults with the state, except that a
symbolic state alone can lack a loop exit or refuse an output, and it ends with
the state and with its output. -/
theorem machine_follows_unfaulted
    {program : Program}
    {policy : OutputPolicy}
    {capacity : Nat}
    {state : State}
    (unfaulted : State.Unfaulted program policy capacity state)
    {bytes : Array UInt8}
    {assignment : Assignment}
    (agrees : assignment.Agrees (.ofBytes bytes))
    (satisfied : state.constraint.holds assignment = true) :
    (Machine.initial (.fixed capacity)).after? program (.ofBytes bytes)
        state.steps = some (state.concretize assignment) ∧
      (∀ after fault,
        state.effect? program policy = some (.fault after fault) ->
          fault.isUnconditional = true ->
            interpret program bytes (.fixed capacity) (state.steps + 1) =
              some (.error ⟨state.instructionPointer, fault⟩)) ∧
      (state.isDone program = true ->
        interpret program bytes (.fixed capacity) state.steps =
          some (.ok (state.output.map (Value.eval assignment)))) := by
  have follows := unfaulted.follows agrees
  refine ⟨follows satisfied, ?_, ?_⟩
  · intro after fault effect_eq unconditional
    exact follows.run_of_fault agrees satisfied effect_eq unconditional 0
  · intro isDone
    exact follows.run_of_isDone satisfied isDone 0

/-- A program that writes off the tape on all input but zero. -/
def writesOffTape : Program :=
  ⟨#[.read, .loopEnter, .moveLeft, .write, .loopExit], none⟩

/-- A state in front of the write has moved to the left of the tape.  On the
input of a single byte seven the machine is there after three instructions, and
it faults with the state. -/
theorem machine_follows_unfaulted_off_tape :
    ∃ state,
      State.Unfaulted writesOffTape .recordSymbolic 1 state ∧
        state.pointer = -1 ∧
        state.constraint =
          Constraint.trivial.and (.isNonZero (.symbol (inputName 0))) ∧
        state.effect? writesOffTape .recordSymbolic =
          some (.fault state.countStep (.memoryAccess (-1) 1)) ∧
        (Machine.initial (.fixed 1)).after? writesOffTape (.ofBytes #[7]) 3 =
          some (state.concretize (InputStream.assignment (.ofBytes #[7]))) ∧
        interpret writesOffTape #[7] (.fixed 1) 4 =
          some (.error ⟨3, .memoryAccess (-1) 1⟩) := by
  obtain ⟨state, unfaulted, steps_eq, location_eq, pointer_eq, constraint_eq,
      effect_eq⟩ :
      ∃ state,
        State.Unfaulted writesOffTape .recordSymbolic 1 state ∧
          state.steps = 3 ∧ state.instructionPointer = 3 ∧
          state.pointer = -1 ∧
          state.constraint =
            Constraint.trivial.and (.isNonZero (.symbol (inputName 0))) ∧
          state.effect? writesOffTape .recordSymbolic =
            some (.fault state.countStep (.memoryAccess (-1) 1)) :=
    ⟨_, .step 1 (.step 2 .initial (.tail _ (.head _))) (.head _), rfl, rfl,
      rfl, rfl, rfl⟩
  have agrees := InputStream.agrees_assignment (.ofBytes #[7])
  have satisfied : state.constraint.holds
      (InputStream.assignment (.ofBytes #[7])) = true := by
    have byte := agrees 0
    simp [constraint_eq, Predicate.holds, Predicate.term, Predicate.accepts,
      byte, InputStream.ofBytes, InputStream.newline]
  obtain ⟨executed, faults, -⟩ :=
    machine_follows_unfaulted unfaulted agrees satisfied
  have failed := faults state.countStep _ effect_eq rfl
  rw [steps_eq] at executed failed
  rw [location_eq] at failed
  exact ⟨state, unfaulted, pointer_eq, constraint_eq, effect_eq, executed,
    failed⟩

end SymbolicTape
