import SymbolicTape.Path
import SymbolicTape.Proofs.Execution
import SymbolicTape.Proofs.SharedConstraints
import SymbolicTape.Proofs.SharedTapes

/-!
# Paths that share their data

The paths of an exploration keep their tapes in one family and their constraints
in another.  A path refers to its own by their indices, and its instructions
change the families.  At a fork one side takes over the tape and the other one
gets a copy, which has all pages in common with it.  Both sides extend the
constraint and have all clauses before the new one in common.

What a path amounts to is found by reading its tape and its constraint.  An
instruction of a stored path is the same instruction on what is read, and it
changes no constraint and no other tape.  By induction on the budget the same
holds of a slice.  So a path with a tape of its own goes on in the same way
whatever is done to other paths before.
-/

namespace SymbolicTape

namespace State

/-- A cell is changed by getting its value and storing another one. -/
theorem changeCell_eq (change : Value -> Value) (state : State) :
    state.changeCell change =
      match state.tape.get state.pointer with
      | .error fault => .fault state fault
      | .ok value =>
          match state.tape.set state.pointer (change value) with
          | .error fault => .fault state fault
          | .ok tape => .next { state with tape := tape }.advance := by
  unfold changeCell Tape.get Tape.set
  cases state.tape.index? state.pointer with
  | error fault => rfl
  | ok index => rfl

theorem readInput_eq (state : State) :
    state.readInput =
      match state.tape.set state.pointer
          (.input (inputName state.inputCounter)) with
      | .error fault => .fault state fault
      | .ok tape =>
          .next
            { state with
              tape := tape
              inputCounter := state.inputCounter + 1 }.advance := by
  unfold readInput Tape.set
  cases state.tape.index? state.pointer with
  | error fault => rfl
  | ok index => rfl

end State

/-- The outcome with all its states changed. -/
def Outcome.map (change : σ -> τ) : Outcome σ -> Outcome τ
  | .advanced state => .advanced (change state)
  | .done state => .done (change state)
  | .forked location zero nonZero =>
      .forked location (change zero) (change nonZero)
  | .faulted state fault => .faulted (change state) fault

/-! ## Stored paths -/

/-- What the paths of an exploration share. -/
structure Memory where
  /-- The tapes. -/
  tapes : TapeFamily
  /-- The constraints. -/
  constraints : ConstraintFamily
  /-- The constraints were built from one another. -/
  built : ∃ history, constraints = ConstraintFamily.build history

/-- A state that keeps its tape and its constraint in a memory. -/
structure StoredState where
  /-- The index of the next instruction. -/
  instructionPointer : Nat
  /-- The position of the head. -/
  pointer : Int64
  /-- The enters of the loops being executed, innermost first. -/
  loopStack : List Nat
  /-- The index of the tape. -/
  tape : Nat
  /-- The index of the constraint. -/
  constraint : Nat
  /-- The number of reads so far. -/
  inputCounter : Nat
  /-- The values written so far. -/
  output : Array Value
  /-- The number of instructions executed. -/
  steps : Nat

/-- A path that keeps its tape and its constraint in a memory. -/
structure StoredPath where
  /-- The identity of the path. -/
  identifier : Identifier
  /-- The path that this one was forked from. -/
  parent : Option Identifier
  /-- Where the path has got to. -/
  state : StoredState

namespace StoredState

/-- Whether the program has ended. -/
def isDone (program : Program) (stored : StoredState) : Bool :=
  program.size ≤ stored.instructionPointer

/-- Go on with the next instruction. -/
def advance (stored : StoredState) : StoredState :=
  { stored with instructionPointer := stored.instructionPointer + 1 }

/-- Go on inside the loop whose enter is the current instruction. -/
def enterLoop (stored : StoredState) : StoredState :=
  { stored with
    loopStack := stored.instructionPointer :: stored.loopStack
    instructionPointer := stored.instructionPointer + 1 }

/-- Go on after the exit of a loop that is not entered. -/
def skipLoop (exit : Nat) (stored : StoredState) : StoredState :=
  { stored with instructionPointer := exit + 1 }

/-- Go on after the innermost loop, whose exit is the current instruction. -/
def exitLoop (stored : StoredState) : StoredState :=
  { stored with
    loopStack := stored.loopStack.tail
    instructionPointer := stored.instructionPointer + 1 }

/-- Go on at the start of the body of a loop. -/
def repeatLoop (enter : Nat) (stored : StoredState) : StoredState :=
  { stored with instructionPointer := enter + 1 }

/-- Count one more instruction. -/
def countStep (stored : StoredState) : StoredState :=
  { stored with steps := stored.steps + 1 }

end StoredState

/-- What one instruction does to a stored state and to the memory.  A fault
leaves the memory as it is. -/
inductive StoredEffect
  /-- The state goes on. -/
  | next (memory : Memory) (stored : StoredState)
  /-- A loop test depends on the input, and both sides go on. -/
  | split (memory : Memory) (zero nonZero : StoredState)
  /-- The instruction cannot be executed in this state. -/
  | fault (stored : StoredState) (fault : Fault)

namespace Memory

/-- The tape that a state refers to; there are only tapes without cells past the
last. -/
def sharedTape (memory : Memory) (stored : StoredState) : SharedTape :=
  memory.tapes.members.getD stored.tape ⟨0, Vector.replicate _ 0⟩

/-- The constraint that a state refers to. -/
def sharedConstraint
    (memory : Memory)
    (stored : StoredState) : SharedConstraint :=
  memory.constraints.member stored.constraint

/-- The tape of a state. -/
def tape (memory : Memory) (stored : StoredState) : Tape :=
  (memory.sharedTape stored).read memory.tapes.pages

/-- The constraint of a state. -/
def constraint (memory : Memory) (stored : StoredState) : Constraint :=
  (memory.sharedConstraint stored).toConstraint

/-- The state with its tape and its constraint. -/
def readState (memory : Memory) (stored : StoredState) : State where
  instructionPointer := stored.instructionPointer
  pointer := stored.pointer
  loopStack := stored.loopStack
  tape := memory.tape stored
  constraint := memory.constraint stored
  inputCounter := stored.inputCounter
  output := stored.output
  steps := stored.steps

section Read

variable (memory : Memory) (stored : StoredState)

@[simp] theorem instructionPointer_readState :
    (memory.readState stored).instructionPointer =
      stored.instructionPointer := rfl

@[simp] theorem pointer_readState :
    (memory.readState stored).pointer = stored.pointer := rfl

@[simp] theorem loopStack_readState :
    (memory.readState stored).loopStack = stored.loopStack := rfl

@[simp] theorem tape_readState :
    (memory.readState stored).tape = memory.tape stored := rfl

end Read

/-- The path with its tape and its constraint. -/
def read (memory : Memory) (stored : StoredPath) : Path where
  identifier := stored.identifier
  parent := stored.parent
  state := memory.readState stored.state

/-! ## Instructions of stored paths -/

/-- The value of the current cell. -/
def get (memory : Memory) (stored : StoredState) : Except Fault Value :=
  (memory.tape stored).get stored.pointer

/-- Store a value in the current cell. -/
def set
    (memory : Memory)
    (stored : StoredState)
    (value : Value) : Except Fault Memory :=
  (memory.tapes.set stored.tape stored.pointer value).map fun tapes =>
    { memory with tapes := tapes }

/-- Give a state a copy of its tape. -/
def copyTape
    (memory : Memory)
    (stored : StoredState) : Memory × StoredState :=
  ({ memory with tapes := memory.tapes.copy stored.tape },
    { stored with tape := memory.tapes.members.size })

/-- Add an assumption to the constraint of a state. -/
def assume
    (memory : Memory)
    (stored : StoredState)
    (clause : Predicate) : Memory × StoredState :=
  ({ memory with
      constraints := memory.constraints.extend stored.constraint [clause]
      built := by
        obtain ⟨history, built⟩ := memory.built
        refine ⟨history ++ [.extend stored.constraint [clause]], ?_⟩
        rw [ConstraintFamily.build, List.foldl_append, built]
        rfl },
    { stored with constraint := memory.constraints.members.size })

/-- Split a state in two.  The nonzero side takes over the tape. -/
def fork
    (memory : Memory)
    (stored : StoredState)
    (whenZero : Predicate) : Memory × StoredState × StoredState :=
  let copied := memory.copyTape stored
  let zero := copied.1.assume copied.2 whenZero
  let nonZero := zero.1.assume stored whenZero.negate
  (nonZero.1, zero.2, nonZero.2)

/-- Store a value in the current cell and go on with another state. -/
def store
    (value : Value)
    (next : StoredState)
    (memory : Memory)
    (stored : StoredState) : StoredEffect :=
  match memory.set stored value with
  | .error fault => .fault stored fault
  | .ok after => .next after next

/-- Change the current cell. -/
def changeCell
    (change : Value -> Value)
    (memory : Memory)
    (stored : StoredState) : StoredEffect :=
  match memory.get stored with
  | .error fault => .fault stored fault
  | .ok value => memory.store (change value) stored.advance stored

/-- Test the current cell at a loop enter. -/
def testAtEnter
    (program : Program)
    (memory : Memory)
    (stored : StoredState) : StoredEffect :=
  match memory.get stored with
  | .error fault => .fault stored fault
  | .ok value =>
      match value.zeroTest with
      | .nonZero => .next memory stored.enterLoop
      | .zero =>
          match program.matchingExit? stored.instructionPointer with
          | none => .fault stored .noMatchingLoopExit
          | some exit => .next memory (stored.skipLoop exit)
      | .undetermined whenZero =>
          match program.matchingExit? stored.instructionPointer with
          | none => .fault stored .noMatchingLoopExit
          | some exit =>
              let forked := memory.fork stored whenZero
              .split forked.1 (forked.2.1.skipLoop exit) forked.2.2.enterLoop

/-- Test the current cell at a loop exit. -/
def testAtExit (memory : Memory) (stored : StoredState) : StoredEffect :=
  match stored.loopStack with
  | [] => .fault stored .unbalancedLoop
  | enter :: _ =>
      match memory.get stored with
      | .error fault => .fault stored fault
      | .ok value =>
          match value.zeroTest with
          | .zero => .next memory stored.exitLoop
          | .nonZero => .next memory (stored.repeatLoop enter)
          | .undetermined whenZero =>
              let forked := memory.fork stored whenZero
              .split forked.1 forked.2.1.exitLoop
                (forked.2.2.repeatLoop enter)

/-- Store a fresh name in the current cell. -/
def readInput (memory : Memory) (stored : StoredState) : StoredEffect :=
  memory.store (.input (inputName stored.inputCounter))
    { stored with inputCounter := stored.inputCounter + 1 }.advance stored

/-- Write the current cell. -/
def writeOutput
    (policy : OutputPolicy)
    (memory : Memory)
    (stored : StoredState) : StoredEffect :=
  match memory.get stored with
  | .error fault => .fault stored fault
  | .ok value =>
      if value.isSymbolic ∧ policy = .rejectSymbolic then
        .fault stored (.unsupportedConcretization stored.pointer)
      else
        .next memory { stored with output := stored.output.push value }.advance

/-- Execute one instruction, the one at the instruction pointer. -/
def execute
    (program : Program)
    (policy : OutputPolicy)
    (opcode : Opcode)
    (memory : Memory)
    (stored : StoredState) : StoredEffect :=
  match opcode with
  | .moveRight =>
      .next memory { stored with pointer := stored.pointer + 1 }.advance
  | .moveLeft =>
      .next memory { stored with pointer := stored.pointer - 1 }.advance
  | .increment => memory.changeCell (Value.add 1) stored
  | .decrement => memory.changeCell (Value.sub 1) stored
  | .loopEnter => memory.testAtEnter program stored
  | .loopExit => memory.testAtExit stored
  | .read => memory.readInput stored
  | .write => memory.writeOutput policy stored
  | .comment _ => .next memory stored.advance

/-- Run a state for a budget of instructions, `executed` being the number of
instructions executed before. -/
def runFrom
    (program : Program)
    (policy : OutputPolicy) :
    (budget executed : Nat) -> Memory -> StoredState ->
      Memory × Slice StoredState
  | 0, executed, memory, stored =>
      (memory, ⟨executed,
        if stored.isDone program then .done stored else .advanced stored⟩)
  | budget + 1, executed, memory, stored =>
      match program.instruction? stored.instructionPointer with
      | none => (memory, ⟨executed, .done stored⟩)
      | some opcode =>
          let location := stored.instructionPointer
          match memory.execute program policy opcode stored.countStep with
          | .fault stored fault =>
              (memory, ⟨executed + 1, .faulted stored ⟨location, fault⟩⟩)
          | .split memory zero nonZero =>
              (memory, ⟨executed + 1, .forked location zero nonZero⟩)
          | .next memory next =>
              runFrom program policy budget (executed + 1) memory next

/-- Run a state within a budget of instructions. -/
def run
    (program : Program)
    (policy : OutputPolicy)
    (budget : Nat)
    (memory : Memory)
    (stored : StoredState) : Memory × Slice StoredState :=
  runFrom program policy budget 0 memory stored

end Memory

namespace StoredPath

/-- One side of a fork. -/
def child
    (path : StoredPath)
    (identifier : Identifier)
    (state : StoredState) : StoredPath :=
  { identifier := identifier, parent := some path.identifier, state := state }

/-- The paths on which a run of the state of a path ends. -/
def follow
    (path : StoredPath)
    (names : Names) : Outcome StoredState -> Outcome StoredPath
  | .advanced state => .advanced { path with state := state }
  | .done state => .done { path with state := state }
  | .forked location zero nonZero =>
      .forked location
        (path.child names.next zero)
        (path.child (names.skip 1).next nonZero)
  | .faulted state fault => .faulted { path with state := state } fault

end StoredPath

/-- Run a path within a budget of instructions. -/
def Memory.step
    (program : Program)
    (policy : OutputPolicy)
    (names : Names)
    (budget : Nat)
    (memory : Memory)
    (path : StoredPath) : Memory × Slice StoredPath :=
  let result := memory.run program policy budget path.state
  (result.1, ⟨result.2.executed, path.follow names result.2.outcome⟩)

/-! ## What an instruction leaves as it is -/

namespace Memory

/-- A memory has the tape and the constraint of a state. -/
structure Holds (memory : Memory) (stored : StoredState) : Prop where
  tape : stored.tape < memory.tapes.members.size
  constraint : stored.constraint < memory.constraints.members.size

/-- A memory that may have grown, in which at most one of the tapes that were
there has been changed. -/
structure GrowsTo (before : Memory) (tape : Nat) (after : Memory) : Prop where
  tapes_le : before.tapes.members.size ≤ after.tapes.members.size
  constraints_le :
    before.constraints.members.size ≤ after.constraints.members.size
  tape_eq : ∀ index < before.tapes.members.size, index ≠ tape ->
    after.tapes.tape? index = before.tapes.tape? index
  constraint_eq : ∀ index < before.constraints.members.size,
    after.constraints.member index = before.constraints.member index

section Growth

variable {before between after memory : Memory} {stored : StoredState}
variable {tape : Nat}

theorem GrowsTo.refl (memory : Memory) (tape : Nat) :
    memory.GrowsTo tape memory :=
  ⟨Nat.le_refl _, Nat.le_refl _, fun _ _ _ => rfl, fun _ _ => rfl⟩

/-- What is changed later must be the same tape or one that was not there. -/
theorem GrowsTo.trans
    {later : Nat}
    (first : before.GrowsTo tape between)
    (second : between.GrowsTo later after)
    (own : later = tape ∨ before.tapes.members.size ≤ later) :
    before.GrowsTo tape after where
  tapes_le := first.tapes_le.trans second.tapes_le
  constraints_le := first.constraints_le.trans second.constraints_le
  tape_eq := by
    intro index isOld differs
    have differsLater : index ≠ later := by
      rcases own with rfl | isNew
      · exact differs
      · omega
    rw [second.tape_eq index (isOld.trans_le first.tapes_le) differsLater,
      first.tape_eq index isOld differs]
  constraint_eq := by
    intro index isOld
    rw [second.constraint_eq index (isOld.trans_le first.constraints_le),
      first.constraint_eq index isOld]

theorem Holds.growsTo
    (holds : before.Holds stored)
    (grows : before.GrowsTo tape after) :
    after.Holds stored :=
  ⟨holds.tape.trans_le grows.tapes_le,
    holds.constraint.trans_le grows.constraints_le⟩

/-- Only the indices of a state matter to whether a memory has its data. -/
theorem Holds.congr
    {next : StoredState}
    (holds : memory.Holds stored)
    (tape_eq : next.tape = stored.tape)
    (constraint_eq : next.constraint = stored.constraint) :
    memory.Holds next :=
  ⟨tape_eq ▸ holds.tape, constraint_eq ▸ holds.constraint⟩

theorem Holds.tape?_eq (holds : memory.Holds stored) :
    memory.tapes.tape? stored.tape = some (memory.tape stored) := by
  rw [TapeFamily.tape?_eq_map_read]
  simp [Memory.tape, sharedTape, holds.tape]

/-- A state whose tape is not changed stays as it is. -/
theorem GrowsTo.readState_eq
    (grows : before.GrowsTo tape after)
    (holds : before.Holds stored)
    (differs : stored.tape ≠ tape) :
    after.readState stored = before.readState stored := by
  have tape_eq : after.tape stored = before.tape stored := by
    have same := grows.tape_eq stored.tape holds.tape differs
    rw [holds.tape?_eq, (holds.growsTo grows).tape?_eq] at same
    exact Option.some.inj same
  have constraint_eq : after.constraint stored = before.constraint stored :=
    congrArg SharedConstraint.toConstraint
      (grows.constraint_eq stored.constraint holds.constraint)
  unfold readState
  rw [tape_eq, constraint_eq]

end Growth

section Operations

variable {memory : Memory} {stored : StoredState}

/-- A value cannot be stored exactly if it cannot be stored on the tape that is
read. -/
theorem Holds.set_eq_error_iff
    (holds : memory.Holds stored)
    {value : Value}
    {fault : Fault} :
    memory.set stored value = .error fault ↔
      (memory.tape stored).set stored.pointer value = .error fault := by
  have family_iff := @TapeFamily.set_eq_error_iff memory.tapes stored.tape
    stored.pointer value fault
  rw [holds.tape?_eq] at family_iff
  unfold set
  cases stored_eq : memory.tapes.set stored.tape stored.pointer value with
  | error reason => simpa [stored_eq, Except.map] using family_iff
  | ok tapes => simpa [stored_eq, Except.map] using family_iff

/-- Storing a value stores it on the tape that is read, and changes no other
tape. -/
theorem Holds.of_set
    (holds : memory.Holds stored)
    {value : Value}
    {after : Memory}
    (set_eq : memory.set stored value = .ok after) :
    memory.GrowsTo stored.tape after ∧
      (memory.tape stored).set stored.pointer value =
        .ok (after.tape stored) := by
  unfold set at set_eq
  cases stored_eq : memory.tapes.set stored.tape stored.pointer value with
  | error reason =>
      rw [stored_eq] at set_eq
      cases set_eq
  | ok tapes =>
      rw [stored_eq] at set_eq
      cases set_eq
      have size_eq := memory.tapes.size_set stored_eq
      have grows : memory.GrowsTo stored.tape
          { memory with tapes := tapes } := by
        refine ⟨size_eq.ge, Nat.le_refl _, ?_, fun _ _ => rfl⟩
        intro index _ differs
        rw [memory.tapes.tape?_set stored_eq, if_neg differs]
      have changed := memory.tapes.tape?_set stored_eq stored.tape
      rw [if_pos rfl, holds.tape?_eq, Option.bind_some] at changed
      have found := (holds.growsTo grows).tape?_eq.symm.trans changed
      refine ⟨grows, ?_⟩
      cases tape_eq : (memory.tape stored).set stored.pointer value with
      | error fault =>
          rw [tape_eq] at found
          cases found
      | ok tape =>
          rw [tape_eq] at found
          exact congrArg Except.ok (Option.some.inj found).symm

/-- A copy of the tape is read alike. -/
theorem Holds.copyTape (holds : memory.Holds stored) :
    let copied := memory.copyTape stored
    (∀ tape, memory.GrowsTo tape copied.1) ∧
      copied.1.Holds copied.2 ∧
      copied.1.readState copied.2 = memory.readState stored := by
  intro copied
  have size_eq := memory.tapes.size_copy holds.tape?_eq
  have tape?_eq := memory.tapes.tape?_copy holds.tape?_eq
  have copiedHolds : copied.1.Holds copied.2 :=
    ⟨size_eq ▸ Nat.lt_succ_self _, holds.constraint⟩
  have tape_eq : copied.1.tape copied.2 = memory.tape stored := by
    have copy_eq := tape?_eq memory.tapes.members.size
    rw [if_pos rfl] at copy_eq
    exact Option.some.inj (copiedHolds.tape?_eq.symm.trans copy_eq)
  refine ⟨?_, copiedHolds, ?_⟩
  · intro tape
    refine ⟨size_eq ▸ Nat.le_succ _, Nat.le_refl _, ?_, fun _ _ => rfl⟩
    intro index isOld _
    exact (tape?_eq index).trans (if_neg isOld.ne)
  · unfold readState
    rw [tape_eq]
    rfl

/-- An assumption is added to the constraint that is read. -/
theorem Holds.assume
    (holds : memory.Holds stored)
    (clause : Predicate) :
    let assumed := memory.assume stored clause
    (∀ tape, memory.GrowsTo tape assumed.1) ∧
      assumed.1.Holds assumed.2 ∧
      assumed.1.readState assumed.2 =
        (memory.readState stored).assume clause := by
  intro assumed
  have constraints_eq : assumed.1.constraints = memory.constraints.push
      (memory.sharedConstraint stored) [clause] :=
    memory.constraints.extend_eq_push stored.constraint [clause]
  have size_eq : assumed.1.constraints.members.size =
      memory.constraints.members.size + 1 := by
    rw [constraints_eq]
    exact Array.size_push _
  have constraint_eq : assumed.1.constraint assumed.2 =
      (memory.constraint stored).and clause := by
    apply Constraint.clauses_inj.mp
    unfold Memory.constraint sharedConstraint
    rw [constraints_eq, Constraint.clauses_and]
    exact (congrArg SharedConstraint.clauses
      (memory.constraints.member_push_size _ _)).trans
        (SharedConstraint.clauses_extended _ _ _)
  refine ⟨?_, ⟨holds.tape, size_eq ▸ Nat.lt_succ_self _⟩, ?_⟩
  · intro tape
    refine ⟨Nat.le_refl _, size_eq ▸ Nat.le_succ _, fun _ _ _ => rfl, ?_⟩
    intro index isOld
    rw [constraints_eq]
    exact memory.constraints.member_push_of_lt _ _ isOld
  · unfold readState
    rw [constraint_eq]
    rfl

/-- What a fork comes to.  The zero side gets a tape that was not there. -/
structure Forks
    (memory : Memory)
    (stored : StoredState)
    (whenZero : Predicate)
    (after : Memory)
    (zero nonZero : StoredState) : Prop where
  grows : memory.GrowsTo stored.tape after
  zeroHolds : after.Holds zero
  nonZeroHolds : after.Holds nonZero
  zeroTape : memory.tapes.members.size ≤ zero.tape
  nonZeroTape : nonZero.tape = stored.tape
  readZero : after.readState zero =
    (memory.readState stored).assume whenZero
  readNonZero : after.readState nonZero =
    (memory.readState stored).assume whenZero.negate

theorem Holds.fork
    (holds : memory.Holds stored)
    (whenZero : Predicate) :
    let forked := memory.fork stored whenZero
    memory.Forks stored whenZero forked.1 forked.2.1 forked.2.2 := by
  intro forked
  obtain ⟨copyGrows, copyHolds, copyRead⟩ := holds.copyTape
  obtain ⟨zeroGrows, zeroHolds, zeroRead⟩ := copyHolds.assume whenZero
  have keptHolds := (holds.growsTo (copyGrows stored.tape)).growsTo
    (zeroGrows stored.tape)
  obtain ⟨nonZeroGrows, nonZeroHolds, nonZeroRead⟩ :=
    keptHolds.assume whenZero.negate
  have oldTape := holds.tape
  have newTape : stored.tape ≠ memory.tapes.members.size := oldTape.ne
  have keptRead :
      ((memory.copyTape stored).1.assume (memory.copyTape stored).2
        whenZero).1.readState stored = memory.readState stored := by
    rw [(zeroGrows memory.tapes.members.size).readState_eq
        (holds.growsTo (copyGrows stored.tape)) newTape,
      (copyGrows memory.tapes.members.size).readState_eq holds newTape]
  refine ⟨?_, zeroHolds.growsTo (nonZeroGrows stored.tape), nonZeroHolds,
    Nat.le_refl _, rfl, ?_, ?_⟩
  · exact ((copyGrows stored.tape).trans (zeroGrows stored.tape)
      (.inl rfl)).trans (nonZeroGrows stored.tape) (.inl rfl)
  · rw [← copyRead, ← zeroRead]
    exact (nonZeroGrows stored.tape).readState_eq zeroHolds newTape.symm
  · rw [← keptRead]
    exact nonZeroRead

end Operations

/-! ## Instructions on what is read -/

/-- An effect on a stored state is that on what is read, in a memory in which no
other tape was changed. -/
inductive Realizes
    (memory : Memory)
    (tape : Nat) : StoredEffect -> Effect -> Prop
  | next
      {after : Memory}
      {stored : StoredState}
      (grows : memory.GrowsTo tape after)
      (holds : after.Holds stored)
      (own : stored.tape = tape)
      {state : State}
      (read : after.readState stored = state) :
      Realizes memory tape (.next after stored) (.next state)
  | split
      {after : Memory}
      {zero nonZero : StoredState}
      (grows : memory.GrowsTo tape after)
      (zeroHolds : after.Holds zero)
      (nonZeroHolds : after.Holds nonZero)
      (zeroTape : memory.tapes.members.size ≤ zero.tape)
      (nonZeroTape : nonZero.tape = tape)
      {zeroState nonZeroState : State}
      (readZero : after.readState zero = zeroState)
      (readNonZero : after.readState nonZero = nonZeroState) :
      Realizes memory tape (.split after zero nonZero)
        (.split zeroState nonZeroState)
  | fault
      {stored : StoredState}
      (fault : Fault)
      (holds : memory.Holds stored)
      (own : stored.tape = tape) :
      Realizes memory tape (.fault stored fault)
        (.fault (memory.readState stored) fault)

section Instructions

variable {memory : Memory} {stored : StoredState}
variable {program : Program} {policy : OutputPolicy}

/-- A state that is read from the same memory goes on. -/
theorem Holds.realizes_next
    {next : StoredState}
    (holds : memory.Holds stored)
    (tape_eq : next.tape = stored.tape)
    (constraint_eq : next.constraint = stored.constraint) :
    memory.Realizes stored.tape (.next memory next)
      (.next (memory.readState next)) :=
  .next (.refl memory stored.tape) (holds.congr tape_eq constraint_eq) tape_eq
    rfl

/-- Both sides of a fork go on. -/
theorem Forks.realizes_split
    {whenZero : Predicate}
    {after : Memory}
    {zero nonZero : StoredState}
    (forks : memory.Forks stored whenZero after zero nonZero)
    {nextZero nextNonZero : StoredState}
    (zeroTape_eq : nextZero.tape = zero.tape)
    (zeroConstraint_eq : nextZero.constraint = zero.constraint)
    (nonZeroTape_eq : nextNonZero.tape = nonZero.tape)
    (nonZeroConstraint_eq : nextNonZero.constraint = nonZero.constraint) :
    memory.Realizes stored.tape (.split after nextZero nextNonZero)
      (.split (after.readState nextZero) (after.readState nextNonZero)) :=
  .split forks.grows (forks.zeroHolds.congr zeroTape_eq zeroConstraint_eq)
    (forks.nonZeroHolds.congr nonZeroTape_eq nonZeroConstraint_eq)
    (zeroTape_eq ▸ forks.zeroTape) (nonZeroTape_eq.trans forks.nonZeroTape)
    rfl rfl

/-- Storing a value and going on is storing it on the tape that is read. -/
theorem Holds.realizes_store
    (holds : memory.Holds stored)
    (next : StoredState)
    (tape_eq : next.tape = stored.tape)
    (constraint_eq : next.constraint = stored.constraint)
    (value : Value) :
    memory.Realizes stored.tape (memory.store value next stored)
      (match (memory.tape stored).set stored.pointer value with
        | .error fault => .fault (memory.readState stored) fault
        | .ok tape => .next { memory.readState next with tape := tape }) := by
  unfold store
  cases set_eq : memory.set stored value with
  | error fault =>
      rw [holds.set_eq_error_iff.mp set_eq]
      exact .fault fault holds rfl
  | ok after =>
      obtain ⟨grows, stored_eq⟩ := holds.of_set set_eq
      have nextHolds := (holds.growsTo grows).congr tape_eq constraint_eq
      have read_eq : after.readState next =
          { memory.readState next with tape := after.tape stored } := by
        have sameTape : after.tape next = after.tape stored := by
          unfold Memory.tape sharedTape
          rw [tape_eq]
        have sameConstraint : after.constraint next =
            memory.constraint next := by
          unfold Memory.constraint sharedConstraint
          rw [constraint_eq, grows.constraint_eq _ holds.constraint]
        unfold readState
        rw [sameTape, sameConstraint]
      rw [stored_eq]
      exact .next grows nextHolds tape_eq read_eq

theorem Holds.realizes_changeCell
    (holds : memory.Holds stored)
    (change : Value -> Value) :
    memory.Realizes stored.tape (memory.changeCell change stored)
      ((memory.readState stored).changeCell change) := by
  rw [State.changeCell_eq, tape_readState, pointer_readState]
  unfold changeCell get
  cases (memory.tape stored).get stored.pointer with
  | error fault => exact .fault fault holds rfl
  | ok value =>
      exact holds.realizes_store stored.advance rfl rfl (change value)

theorem Holds.realizes_readInput (holds : memory.Holds stored) :
    memory.Realizes stored.tape (memory.readInput stored)
      (memory.readState stored).readInput := by
  rw [State.readInput_eq]
  exact holds.realizes_store
    { stored with inputCounter := stored.inputCounter + 1 }.advance rfl rfl _

theorem Holds.realizes_writeOutput (holds : memory.Holds stored) :
    memory.Realizes stored.tape (memory.writeOutput policy stored)
      ((memory.readState stored).writeOutput policy) := by
  unfold writeOutput State.writeOutput get
  rw [tape_readState, pointer_readState]
  cases (memory.tape stored).get stored.pointer with
  | error fault => exact .fault fault holds rfl
  | ok value =>
      dsimp only
      split
      · exact .fault _ holds rfl
      · exact holds.realizes_next rfl rfl

theorem Holds.realizes_testAtEnter (holds : memory.Holds stored) :
    memory.Realizes stored.tape (memory.testAtEnter program stored)
      ((memory.readState stored).testAtEnter program) := by
  unfold testAtEnter State.testAtEnter get
  rw [tape_readState, pointer_readState, instructionPointer_readState]
  cases (memory.tape stored).get stored.pointer with
  | error fault => exact .fault fault holds rfl
  | ok value =>
      dsimp only
      cases value.zeroTest with
      | nonZero => exact holds.realizes_next rfl rfl
      | zero =>
          dsimp only
          cases program.matchingExit? stored.instructionPointer with
          | none => exact .fault _ holds rfl
          | some exit => exact holds.realizes_next rfl rfl
      | undetermined whenZero =>
          dsimp only
          cases program.matchingExit? stored.instructionPointer with
          | none => exact .fault _ holds rfl
          | some exit =>
              dsimp only
              have forks := holds.fork whenZero
              rw [← forks.readZero, ← forks.readNonZero]
              exact forks.realizes_split rfl rfl rfl rfl

theorem Holds.realizes_testAtExit (holds : memory.Holds stored) :
    memory.Realizes stored.tape (memory.testAtExit stored)
      (memory.readState stored).testAtExit := by
  unfold testAtExit State.testAtExit get
  rw [tape_readState, pointer_readState, loopStack_readState]
  cases stored.loopStack with
  | nil => exact .fault _ holds rfl
  | cons enter outer =>
      dsimp only
      cases (memory.tape stored).get stored.pointer with
      | error fault => exact .fault fault holds rfl
      | ok value =>
          dsimp only
          cases value.zeroTest with
          | zero => exact holds.realizes_next rfl rfl
          | nonZero => exact holds.realizes_next rfl rfl
          | undetermined whenZero =>
              dsimp only
              have forks := holds.fork whenZero
              rw [← forks.readZero, ← forks.readNonZero]
              exact forks.realizes_split rfl rfl rfl rfl

/-- One instruction on a stored state is that on what is read. -/
theorem Holds.realizes_execute
    (holds : memory.Holds stored)
    (opcode : Opcode) :
    memory.Realizes stored.tape (memory.execute program policy opcode stored)
      ((memory.readState stored).execute program policy opcode) := by
  cases opcode with
  | moveRight => exact holds.realizes_next rfl rfl
  | moveLeft => exact holds.realizes_next rfl rfl
  | increment => exact holds.realizes_changeCell (Value.add 1)
  | decrement => exact holds.realizes_changeCell (Value.sub 1)
  | loopEnter => exact holds.realizes_testAtEnter
  | loopExit => exact holds.realizes_testAtExit
  | read => exact holds.realizes_readInput
  | write => exact holds.realizes_writeOutput
  | comment character => exact holds.realizes_next rfl rfl

end Instructions

/-! ## Slices of what is read -/

/-- A slice of a stored path is that of what is read.  The paths on which it ends
have tapes of their own, which no other path has. -/
structure RealizesSlice
    (memory : Memory)
    (tape : Nat)
    (result : Memory × Slice StoredState)
    (slice : Slice State) : Prop where
  grows : memory.GrowsTo tape result.1
  executed : slice.executed = result.2.executed
  outcome : slice.outcome = result.2.outcome.map result.1.readState
  holds : ∀ stored ∈ result.2.outcome.states, result.1.Holds stored
  own : ∀ stored ∈ result.2.outcome.states,
    stored.tape = tape ∨ memory.tapes.members.size ≤ stored.tape
  apart : result.2.outcome.states.Pairwise fun stored other =>
    stored.tape ≠ other.tape

section Slices

variable {program : Program} {policy : OutputPolicy}

/-- A slice after an instruction that changed no other tape. -/
theorem RealizesSlice.after
    {before between : Memory}
    {tape : Nat}
    {result : Memory × Slice StoredState}
    {slice : Slice State}
    (grows : before.GrowsTo tape between)
    (realizes : between.RealizesSlice tape result slice) :
    before.RealizesSlice tape result slice where
  grows := grows.trans realizes.grows (.inl rfl)
  executed := realizes.executed
  outcome := realizes.outcome
  holds := realizes.holds
  own := by
    intro stored member
    exact (realizes.own stored member).imp_right grows.tapes_le.trans
  apart := realizes.apart

/-- A slice that ends on a single state. -/
theorem Holds.realizesSlice
    {memory : Memory}
    {stored : StoredState}
    {tape executed : Nat}
    {outcome : Outcome StoredState}
    (holds : memory.Holds stored)
    (own : stored.tape = tape)
    (single : outcome.states = [stored]) :
    memory.RealizesSlice tape (memory, ⟨executed, outcome⟩)
      ⟨executed, outcome.map memory.readState⟩ where
  grows := .refl memory tape
  executed := rfl
  outcome := rfl
  holds := by
    rw [single]
    exact List.forall_mem_singleton.mpr holds
  own := by
    rw [single]
    exact List.forall_mem_singleton.mpr (.inl own)
  apart := by
    rw [single]
    exact List.pairwise_singleton _ _

/-- By induction on the budget a slice of a stored state is that of what is
read. -/
theorem Holds.realizesSlice_runFrom
    {memory : Memory}
    {stored : StoredState}
    (holds : memory.Holds stored)
    (budget executed : Nat) :
    memory.RealizesSlice stored.tape
      (memory.runFrom program policy budget executed stored)
      ((memory.readState stored).stepFrom program policy budget executed) := by
  induction budget generalizing memory stored executed with
  | zero =>
      unfold runFrom State.stepFrom
      have done_eq : (memory.readState stored).isDone program =
          stored.isDone program := rfl
      rw [done_eq]
      cases stored.isDone program with
      | false => exact holds.realizesSlice rfl rfl
      | true => exact holds.realizesSlice rfl rfl
  | succ budget inductionHypothesis =>
      unfold runFrom State.stepFrom
      rw [instructionPointer_readState]
      cases program.instruction? stored.instructionPointer with
      | none => exact holds.realizesSlice rfl rfl
      | some opcode =>
          dsimp only
          have counted : memory.Holds stored.countStep := holds.congr rfl rfl
          have realizes : memory.Realizes stored.tape
              (memory.execute program policy opcode stored.countStep)
              ((memory.readState stored).countStep.execute program policy
                opcode) :=
            counted.realizes_execute opcode
          generalize memory.execute program policy opcode stored.countStep =
            storedEffect at realizes ⊢
          generalize (memory.readState stored).countStep.execute program policy
            opcode = effect at realizes ⊢
          cases realizes with
          | next grows nextHolds own read =>
              dsimp only
              rw [← own] at grows ⊢
              rw [← read]
              exact (inductionHypothesis nextHolds (executed + 1)).after grows
          | split grows zeroHolds nonZeroHolds zeroTape nonZeroTape readZero
              readNonZero =>
              refine ⟨grows, rfl, ?_, ?_, ?_, ?_⟩
              · rw [← readZero, ← readNonZero]
                rfl
              · exact List.forall_mem_cons.mpr
                  ⟨zeroHolds, List.forall_mem_singleton.mpr nonZeroHolds⟩
              · exact List.forall_mem_cons.mpr ⟨.inr zeroTape,
                  List.forall_mem_singleton.mpr (.inl nonZeroTape)⟩
              · refine List.pairwise_pair.mpr ?_
                have oldTape := holds.tape
                omega
          | fault fault faultHolds own =>
              exact faultHolds.realizesSlice own rfl

theorem Holds.realizesSlice_run
    {memory : Memory}
    {stored : StoredState}
    (holds : memory.Holds stored)
    (budget : Nat) :
    memory.RealizesSlice stored.tape
      (memory.run program policy budget stored)
      ((memory.readState stored).step program policy budget) :=
  holds.realizesSlice_runFrom budget 0

theorem read_follow
    (memory after : Memory)
    (path : StoredPath)
    (names : Names)
    (outcome : Outcome StoredState) :
    (memory.read path).follow names (outcome.map after.readState) =
      (path.follow names outcome).map after.read := by
  cases outcome <;> rfl

/-- A slice of a stored path is that of the path that is read. -/
theorem Holds.read_step
    {memory : Memory}
    {path : StoredPath}
    (holds : memory.Holds path.state)
    (names : Names)
    (budget : Nat) :
    let result := memory.step program policy names budget path
    (memory.read path).step program policy names budget =
      ⟨result.2.executed, result.2.outcome.map result.1.read⟩ := by
  have realizes := @realizesSlice_run program policy _ _ holds budget
  intro result
  unfold Path.step
  dsimp only [read]
  rw [realizes.executed, realizes.outcome]
  exact congrArg (Slice.mk _) (read_follow memory _ path names _)

end Slices
end Memory
end SymbolicTape
