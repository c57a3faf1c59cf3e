import SymbolicTape.Proofs.Budgets
import SymbolicTape.Proofs.StoredPaths

/-!
# Paths that compare equal behave alike

Two paths are compared without their names and without the numbers of their
steps.  Their tapes are compared page by page and their constraints clause by
clause, and both comparisons take a short cut where the two paths share a page
or an addition.

The first part shows that the comparison does not depend on what is shared: it
finds out whether the two states are the same except for the number of steps.
The second part shows that no instruction looks at the number of steps, so that
the runs of two such states end alike, and on states that compare equal again.
By induction on the budgets they grow the same tree of forks.

The third part is about paths in one memory, which are run one after the other.
Each has a tape of its own, so the first run does not matter to the second path,
and the second run does not matter to the paths on which the first one ended.
-/

namespace SymbolicTape

/-! ## Comparing paths that share their data -/

/-- Compare two tapes page by page.  Pages of one address are not looked at. -/
def SharedTape.equals
    (pages : Array Page)
    (tape other : SharedTape) : Bool :=
  tape.capacity == other.capacity
    && tape.addresses.toList.isEqv other.addresses.toList
      fun address otherAddress =>
        address == otherAddress
          || pages.getD address Tape.blankPage ==
            pages.getD otherAddress Tape.blankPage

namespace Memory

/-- Whether two states are equal.  The numbers of their steps are not
compared. -/
def sameState (memory : Memory) (stored other : StoredState) : Bool :=
  stored.instructionPointer == other.instructionPointer
    && stored.pointer == other.pointer
    && stored.loopStack == other.loopStack
    && (memory.sharedTape stored).equals memory.tapes.pages
      (memory.sharedTape other)
    && (memory.sharedConstraint stored).equals (memory.sharedConstraint other)
    && stored.inputCounter == other.inputCounter
    && stored.output == other.output

/-- Whether two paths are equal.  Their names are not compared. -/
def equals (memory : Memory) (stored other : StoredPath) : Bool :=
  memory.sameState stored.state other.state

end Memory

/-- Comparing addresses before what they lead to makes no difference. -/
theorem isEqv_iff_map_eq
    [BEq α]
    [LawfulBEq α]
    (content : Nat -> α)
    (addresses others : List Nat) :
    addresses.isEqv others (fun address other =>
        address == other || content address == content other) = true ↔
      addresses.map content = others.map content := by
  induction addresses generalizing others with
  | nil => cases others <;> simp
  | cons address rest inductionHypothesis =>
      cases others with
      | nil => simp
      | cons other others =>
          rw [List.isEqv_cons_cons, Bool.and_eq_true, inductionHypothesis,
            List.map_cons, List.map_cons, List.cons.injEq, Bool.or_eq_true,
            beq_iff_eq, beq_iff_eq]
          refine and_congr_left' (or_iff_right_of_imp ?_)
          exact congrArg content

theorem Tape.eq_iff_toList {tape other : Tape} :
    tape = other ↔
      tape.capacity = other.capacity ∧
        tape.pages.toList = other.pages.toList := by
  constructor
  · rintro rfl
    exact ⟨rfl, rfl⟩
  · obtain ⟨capacity, pages⟩ := tape
    obtain ⟨otherCapacity, otherPages⟩ := other
    rintro ⟨rfl, same⟩
    exact congrArg (Tape.mk capacity) (Vector.toList_inj.mp same)

/-- The comparison of tapes does not depend on the pages that they share. -/
theorem SharedTape.equals_iff
    {pages : Array Page}
    {tape other : SharedTape} :
    tape.equals pages other = true ↔ tape.read pages = other.read pages := by
  unfold equals
  rw [Bool.and_eq_true, beq_iff_eq,
    isEqv_iff_map_eq (fun address => pages.getD address Tape.blankPage),
    Tape.eq_iff_toList]
  simp [read, contents, Vector.toList_map]

theorem State.agreesWith_iff {state other : State} :
    state.agreesWith other = true ↔
      state.withSteps other.steps = other :=
  decide_eq_true_iff

/-- The comparison of states does not depend on what they share. -/
theorem Memory.sameState_iff
    {memory : Memory}
    {stored other : StoredState} :
    memory.sameState stored other = true ↔
      (memory.readState stored).agreesWith (memory.readState other) = true := by
  obtain ⟨history, built⟩ := memory.built
  obtain ⟨record, mirrors⟩ := ConstraintFamily.exists_mirrors_build history
  rw [← built] at mirrors
  have constraint_iff :
      (memory.sharedConstraint stored).equals (memory.sharedConstraint other) =
          true ↔
        memory.constraint stored = memory.constraint other := by
    rw [← Constraint.clauses_inj]
    exact (mirrors.keepsTo_member stored.constraint).equals_iff
      (mirrors.keepsTo_member other.constraint)
  rw [State.agreesWith_iff]
  simp only [sameState, Bool.and_eq_true, beq_iff_eq, SharedTape.equals_iff,
    constraint_iff, readState, tape, State.withSteps, State.mk.injEq, and_true,
    and_assoc]

/-! ## Runs do not look at the number of steps -/

theorem Outcome.map_map
    (change : σ -> τ)
    (further : τ -> υ)
    (outcome : Outcome σ) :
    (outcome.map change).map further =
      outcome.map fun state => further (change state) := by
  cases outcome <;> rfl

/-- The slice of a state that started with another number of steps. -/
def Slice.withSteps (steps : Nat) (slice : Slice State) : Slice State :=
  ⟨slice.executed,
    slice.outcome.map (State.withSteps (steps + slice.executed))⟩

namespace State

variable {program : Program} {policy : OutputPolicy}

@[simp] theorem instructionPointer_withSteps (steps : Nat) (state : State) :
    (state.withSteps steps).instructionPointer = state.instructionPointer := rfl

@[simp] theorem isDone_withSteps (steps : Nat) (state : State) :
    (state.withSteps steps).isDone program = state.isDone program := rfl

theorem countStep_withSteps (steps : Nat) (state : State) :
    (state.withSteps steps).countStep =
      state.countStep.withSteps (steps + 1) := rfl

/-- A run comes to the same whatever the number of steps before it. -/
theorem step_withSteps (steps budget : Nat) (state : State) :
    (state.withSteps steps).step program policy budget =
      (state.step program policy budget).withSteps steps := by
  induction budget generalizing steps state with
  | zero =>
      cases done : state.isDone program <;>
        simp [step, stepFrom, done, Slice.withSteps, Outcome.map]
  | succ budget inductionHypothesis =>
      rw [step, step, stepFrom, stepFrom, instructionPointer_withSteps]
      cases program.instruction? state.instructionPointer with
      | none => rfl
      | some opcode =>
          dsimp only
          rw [countStep_withSteps, execute_withSteps]
          cases state.countStep.execute program policy opcode with
          | fault after fault => rfl
          | split zero nonZero => rfl
          | next next =>
              dsimp only [Effect.withSteps]
              rw [stepFrom_eq_add, stepFrom_eq_add, inductionHypothesis]
              simp [Slice.withSteps, Nat.add_assoc]

end State

/-- Two paths compare equal. -/
def Path.Agrees (path other : Path) : Prop :=
  path.state.agreesWith other.state = true

theorem Path.agrees_of_withSteps
    {path other : Path}
    {steps : Nat}
    (state_eq : other.state = path.state.withSteps steps) :
    path.Agrees other := by
  rw [Path.Agrees, State.agreesWith_iff, state_eq]
  rfl

/-- The number of steps, the names so far and the name of a path do not matter
to how it goes on. -/
theorem Path.corresponds_follow
    (path other : Path)
    (names otherNames : Names)
    (steps : Nat)
    (outcome : Outcome State) :
    (path.follow names outcome).Corresponds Path.Agrees Path.Agrees
      (other.follow otherNames (outcome.map (State.withSteps steps))) := by
  cases outcome with
  | advanced state => exact .advanced (agrees_of_withSteps rfl)
  | done state => exact .done (agrees_of_withSteps rfl)
  | forked location zero nonZero =>
      exact .forked location (agrees_of_withSteps rfl) (agrees_of_withSteps rfl)
  | faulted state fault => exact .faulted fault (agrees_of_withSteps rfl)

/-! ## Trees of forks -/

/-- What becomes of a state that is run for one budget after another. -/
inductive ForkTree
  /-- There is no further budget. -/
  | leaf (state : State)
  /-- The budget was used up after some instructions. -/
  | advanced (executed : Nat) (rest : ForkTree)
  /-- The program ended after some instructions. -/
  | done (executed : Nat) (state : State)
  /-- The state split at a location after some instructions. -/
  | forked (executed location : Nat) (zero nonZero : ForkTree)
  /-- An instruction faulted after some others. -/
  | faulted (executed : Nat) (state : State) (fault : Located Fault)

namespace State

variable (program : Program) (policy : OutputPolicy)

/-- The tree that a state grows under a sequence of budgets, of which both sides
of a fork get what is left.  The states in it do not tell their numbers of
steps. -/
def forkTree : List Nat -> State -> ForkTree
  | [], state => .leaf (state.withSteps 0)
  | budget :: budgets, state =>
      let slice := state.step program policy budget
      match slice.outcome with
      | .advanced next =>
          .advanced slice.executed (forkTree budgets next)
      | .done last => .done slice.executed (last.withSteps 0)
      | .forked location zero nonZero =>
          .forked slice.executed location (forkTree budgets zero)
            (forkTree budgets nonZero)
      | .faulted last fault =>
          .faulted slice.executed (last.withSteps 0) fault

/-- The tree does not depend on the number of steps. -/
theorem forkTree_withSteps
    (budgets : List Nat)
    (steps : Nat)
    (state : State) :
    (state.withSteps steps).forkTree program policy budgets =
      state.forkTree program policy budgets := by
  induction budgets generalizing steps state with
  | nil => rfl
  | cons budget budgets inductionHypothesis =>
      rw [forkTree, forkTree, step_withSteps, Slice.withSteps]
      dsimp only
      cases (state.step program policy budget).outcome with
      | advanced next => simp only [Outcome.map, inductionHypothesis]
      | done last => rfl
      | forked location zero nonZero =>
          simp only [Outcome.map, inductionHypothesis]
      | faulted last fault => rfl

end State

/-! ## Equal paths in one memory -/

/-- Outcomes correspond if they are the same up to how their states are read. -/
theorem Outcome.corresponds_of_map_eq
    {same : σ -> σ -> Prop}
    {read otherRead : σ -> τ}
    {outcome other : Outcome σ}
    (map_eq : outcome.map read = other.map otherRead)
    (related : ∀ state ∈ outcome.states, ∀ otherState ∈ other.states,
      read state = otherRead otherState -> same state otherState) :
    outcome.Corresponds same same other := by
  cases outcome with
  | advanced state =>
      cases other with
      | advanced otherState =>
          refine .advanced (related _ List.mem_cons_self _ List.mem_cons_self ?_)
          exact Outcome.advanced.inj map_eq
      | _ => cases map_eq
  | done state =>
      cases other with
      | done otherState =>
          refine .done (related _ List.mem_cons_self _ List.mem_cons_self ?_)
          exact Outcome.done.inj map_eq
      | _ => cases map_eq
  | forked location zero nonZero =>
      cases other with
      | forked otherLocation otherZero otherNonZero =>
          obtain ⟨rfl, zero_eq, nonZero_eq⟩ := Outcome.forked.inj map_eq
          have lastOf (first last : σ) : last ∈ [first, last] :=
            List.mem_cons_of_mem first List.mem_cons_self
          exact .forked location
            (related _ List.mem_cons_self _ List.mem_cons_self zero_eq)
            (related _ (lastOf zero nonZero) _ (lastOf otherZero otherNonZero)
              nonZero_eq)
      | _ => cases map_eq
  | faulted state fault =>
      cases other with
      | faulted otherState otherFault =>
          obtain ⟨state_eq, rfl⟩ := Outcome.faulted.inj map_eq
          exact .faulted fault
            (related _ List.mem_cons_self _ List.mem_cons_self state_eq)
      | _ => cases map_eq

namespace Memory

/-- Two states that compare equal, each with a tape of its own. -/
structure Twins (memory : Memory) (stored other : StoredState) : Prop where
  holds : memory.Holds stored
  otherHolds : memory.Holds other
  apart : stored.tape ≠ other.tape
  equal : memory.sameState stored other = true

/-- The tree that a stored state grows under a sequence of budgets.  The zero
side of a fork grows its tree first. -/
def forkTree
    (program : Program)
    (policy : OutputPolicy) :
    List Nat -> Memory -> StoredState -> Memory × ForkTree
  | [], memory, stored =>
      (memory, .leaf ((memory.readState stored).withSteps 0))
  | budget :: budgets, memory, stored =>
      let result := memory.run program policy budget stored
      match result.2.outcome with
      | .advanced next =>
          let rest := forkTree program policy budgets result.1 next
          (rest.1, .advanced result.2.executed rest.2)
      | .done last =>
          (result.1, .done result.2.executed
            ((result.1.readState last).withSteps 0))
      | .forked location zero nonZero =>
          let zeroTree := forkTree program policy budgets result.1 zero
          let nonZeroTree :=
            forkTree program policy budgets zeroTree.1 nonZero
          (nonZeroTree.1, .forked result.2.executed location zeroTree.2
            nonZeroTree.2)
      | .faulted last fault =>
          (result.1, .faulted result.2.executed
            ((result.1.readState last).withSteps 0) fault)

section Twins

variable {program : Program} {policy : OutputPolicy} {memory : Memory}

/-- By induction on the budgets, a stored state grows the tree of what is read,
and changes no tape of another path. -/
theorem Holds.forkTree
    {stored : StoredState}
    (holds : memory.Holds stored)
    (budgets : List Nat) :
    let result := memory.forkTree program policy budgets stored
    memory.GrowsTo stored.tape result.1 ∧
      result.2 = (memory.readState stored).forkTree program policy budgets := by
  induction budgets generalizing memory stored with
  | nil => exact ⟨.refl memory stored.tape, rfl⟩
  | cons budget budgets inductionHypothesis =>
      have realizes := @Holds.realizesSlice_run program policy _ _ holds budget
      rw [State.forkTree, Memory.forkTree, realizes.executed, realizes.outcome]
      generalize memory.run program policy budget stored = result at realizes ⊢
      obtain ⟨after, executed, outcome⟩ := result
      obtain ⟨grows, -, -, endHolds, own, apart⟩ := realizes
      cases outcome with
      | advanced next =>
          obtain ⟨later, tree_eq⟩ :=
            inductionHypothesis (endHolds next List.mem_cons_self)
          refine ⟨grows.trans later (own next List.mem_cons_self), ?_⟩
          exact congrArg (ForkTree.advanced executed) tree_eq
      | done last => exact ⟨grows, rfl⟩
      | faulted last fault => exact ⟨grows, rfl⟩
      | forked location zero nonZero =>
          have nonZeroMember : nonZero ∈ [zero, nonZero] :=
            List.mem_cons_of_mem zero List.mem_cons_self
          have differ := List.pairwise_pair.mp apart
          have nonZeroHolds := endHolds nonZero nonZeroMember
          obtain ⟨zeroGrows, zeroTree_eq⟩ :=
            inductionHypothesis (endHolds zero List.mem_cons_self)
          obtain ⟨nonZeroGrows, nonZeroTree_eq⟩ :=
            inductionHypothesis (nonZeroHolds.growsTo zeroGrows)
          rw [zeroGrows.readState_eq nonZeroHolds differ.symm]
            at nonZeroTree_eq
          refine ⟨(grows.trans zeroGrows (own zero List.mem_cons_self)).trans
            nonZeroGrows (own nonZero nonZeroMember), ?_⟩
          exact congrArg₂ (ForkTree.forked executed location) zeroTree_eq
            nonZeroTree_eq

/-- Runs of states that compare equal, one after the other, end alike and on
states that compare equal. -/
theorem Twins.run
    {stored other : StoredState}
    (twins : memory.Twins stored other)
    (budget : Nat) :
    let first := memory.run program policy budget stored
    let second := first.1.run program policy budget other
    first.2.executed = second.2.executed ∧
      first.2.outcome.Corresponds second.1.Twins second.1.Twins
        second.2.outcome := by
  intro first second
  have agrees := State.agreesWith_iff.mp (sameState_iff.mp twins.equal)
  have realizes : memory.RealizesSlice stored.tape first _ :=
    twins.holds.realizesSlice_run budget
  have otherHolds := twins.otherHolds.growsTo realizes.grows
  have otherRealizes : first.1.RealizesSlice other.tape second _ :=
    otherHolds.realizesSlice_run budget
  -- What is read of the second path has not been changed by the first one.
  rw [realizes.grows.readState_eq twins.otherHolds twins.apart.symm, ← agrees,
    State.step_withSteps] at otherRealizes
  refine ⟨realizes.executed.symm.trans otherRealizes.executed, ?_⟩
  have outcome_eq := otherRealizes.outcome
  rw [Slice.withSteps, realizes.outcome, Outcome.map_map] at outcome_eq
  refine Outcome.corresponds_of_map_eq outcome_eq ?_
  intro state member otherState otherMember read_eq
  have holds := realizes.holds state member
  have own := realizes.own state member
  have otherOwn := otherRealizes.own otherState otherMember
  have apart := twins.apart
  have oldTape := twins.holds.tape
  have otherOldTape := twins.otherHolds.tape
  have newTape := holds.tape
  have tapes_le := realizes.grows.tapes_le
  have kept : second.1.readState state = first.1.readState state :=
    otherRealizes.grows.readState_eq holds (by omega)
  refine ⟨holds.growsTo otherRealizes.grows,
    otherRealizes.holds otherState otherMember, by omega, ?_⟩
  rw [sameState_iff, State.agreesWith_iff, kept, ← read_eq]
  rfl

/-- States that compare equal grow the same tree, one after the other. -/
theorem Twins.forkTree
    {stored other : StoredState}
    (twins : memory.Twins stored other)
    (budgets : List Nat) :
    let first := memory.forkTree program policy budgets stored
    let second := first.1.forkTree program policy budgets other
    first.2 = second.2 := by
  intro first second
  have agrees := State.agreesWith_iff.mp (sameState_iff.mp twins.equal)
  obtain ⟨grows, tree_eq⟩ := twins.holds.forkTree budgets
  obtain ⟨-, otherTree_eq⟩ :=
    (twins.otherHolds.growsTo grows).forkTree budgets
  rw [grows.readState_eq twins.otherHolds twins.apart.symm, ← agrees,
    State.forkTree_withSteps] at otherTree_eq
  exact tree_eq.trans otherTree_eq.symm

end Twins
end Memory

/-- The sides of a fork and their paths are related alike. -/
theorem StoredPath.corresponds_follow
    {same : StoredState -> StoredState -> Prop}
    {outcome otherOutcome : Outcome StoredState}
    (corresponds : outcome.Corresponds same same otherOutcome)
    (path other : StoredPath)
    (names otherNames : Names) :
    (path.follow names outcome).Corresponds
      (fun path other => same path.state other.state)
      (fun path other => same path.state other.state)
      (other.follow otherNames otherOutcome) := by
  cases corresponds with
  | advanced related => exact .advanced related
  | done related => exact .done related
  | forked location zeroRelated nonZeroRelated =>
      exact .forked location zeroRelated nonZeroRelated
  | faulted fault related => exact .faulted fault related

/-- Paths that compare equal behave alike, whatever they share with each other
and with other paths.  The comparison finds out whether two paths are in the
same state except for the number of steps.  If they are, then slices of the two,
for any budget and whatever names are given out, execute the same number of
instructions and end in the same way, with the same fault or a fork at the same
location, on paths that compare equal again.  So the two grow the same tree
under any sequence of budgets.

All of this holds of paths that keep their data in one memory, where each has a
tape of its own and may share its pages and its clauses.  A slice of such a path
is that of the path that is read.  If two of them compare equal and are run one
after the other, then they end alike, on paths that compare equal in the memory
that is left and that have tapes of their own again, and the trees that they grow
one after the other are the same. -/
theorem equal_paths_behave_alike
    (program : Program)
    (policy : OutputPolicy) :
    (∀ (memory : Memory) (stored other : StoredPath),
      memory.equals stored other = true ↔
        (memory.read stored).Agrees (memory.read other)) ∧
    (∀ path other : Path, path.Agrees other ->
      (∀ (budget : Nat) (names otherNames : Names),
        let slice := path.step program policy names budget
        let otherSlice := other.step program policy otherNames budget
        slice.executed = otherSlice.executed ∧
          slice.outcome.Corresponds Path.Agrees Path.Agrees
            otherSlice.outcome) ∧
      ∀ budgets : List Nat,
        path.state.forkTree program policy budgets =
          other.state.forkTree program policy budgets) ∧
    (∀ (memory : Memory) (stored : StoredPath), memory.Holds stored.state ->
      ∀ (budget : Nat) (names : Names),
        let result := memory.step program policy names budget stored
        (memory.read stored).step program policy names budget =
          ⟨result.2.executed, result.2.outcome.map result.1.read⟩) ∧
    ∀ (memory : Memory) (stored other : StoredPath),
      memory.Twins stored.state other.state ->
        (∀ (budget : Nat) (names otherNames : Names),
          let first := memory.step program policy names budget stored
          let second := first.1.step program policy otherNames budget other
          let twins := fun path otherPath : StoredPath =>
            second.1.Twins path.state otherPath.state
          first.2.executed = second.2.executed ∧
            first.2.outcome.Corresponds twins twins second.2.outcome) ∧
        ∀ budgets : List Nat,
          let first := memory.forkTree program policy budgets stored.state
          let second := first.1.forkTree program policy budgets other.state
          first.2 = second.2 := by
  refine ⟨?_, ?_, ?_, ?_⟩
  · intro memory stored other
    exact Memory.sameState_iff
  · intro path other agrees
    have state_eq := State.agreesWith_iff.mp agrees
    constructor
    · intro budget names otherNames
      unfold Path.step
      rw [← state_eq, State.step_withSteps]
      exact ⟨rfl, Path.corresponds_follow path other names otherNames _ _⟩
    · intro budgets
      rw [← state_eq, State.forkTree_withSteps]
  · intro memory stored holds budget names
    exact holds.read_step names budget
  · intro memory stored other twins
    constructor
    · intro budget names otherNames
      obtain ⟨executed_eq, corresponds⟩ := twins.run budget
      exact ⟨executed_eq, StoredPath.corresponds_follow corresponds stored other
        names otherNames⟩
    · intro budgets
      exact twins.forkTree budgets

/-- A page of which the first cell holds an unknown byte. -/
def unknownPage : Page :=
  Tape.blankPage.set 0 (.input (inputName 0))

/-- An assumption about the unknown byte. -/
def unknownAssumed : Predicate := .isNonZero (.symbol (inputName 0))

/-- Two tapes of one cell, each with a copy of the page. -/
def twofoldTapes : TapeFamily where
  pages := #[unknownPage, unknownPage]
  members := #[⟨1, Vector.replicate _ 0⟩, ⟨1, Vector.replicate _ 1⟩]
  stored := by
    intro member isMember address refers
    rcases List.mem_cons.mp (Array.mem_toList_iff.mpr isMember) with
      rfl | isLast
    · rw [Vector.eq_of_mem_replicate refers]
      exact Nat.zero_lt_two
    · obtain rfl := List.mem_singleton.mp isLast
      rw [Vector.eq_of_mem_replicate refers]
      exact Nat.one_lt_two

/-- Two constraints that were built alike. -/
def twofoldHistory : List ConstraintOperation :=
  [.create, .extend 0 [unknownAssumed], .extend 0 [unknownAssumed]]

/-- The two tapes and the two constraints. -/
def twofoldMemory : Memory where
  tapes := twofoldTapes
  constraints := .build twofoldHistory
  built := ⟨twofoldHistory, rfl⟩

/-- A path in front of a loop that tests the byte.  It keeps its data in one
half of the memory or in the other. -/
def storedPath (secondHalf : Bool) (steps : Nat) : StoredPath where
  identifier := (Names.counting secondHalf.toNat).next
  parent := if secondHalf then some (Names.counting 9).next else none
  state :=
    { instructionPointer := 1
      pointer := 0
      loopStack := []
      tape := secondHalf.toNat
      constraint := secondHalf.toNat + 1
      inputCounter := 1
      output := #[]
      steps := steps }

/-- The state in front of the loop. -/
def unknownState (steps : Nat) : State where
  instructionPointer := 1
  tape := ⟨1, Vector.replicate _ unknownPage⟩
  constraint := ⟨[unknownAssumed]⟩
  inputCounter := 1
  steps := steps

theorem readState_storedPath (secondHalf : Bool) (steps : Nat) :
    twofoldMemory.readState (storedPath secondHalf steps).state =
      unknownState steps := by
  have tape_eq : twofoldMemory.tape (storedPath secondHalf steps).state =
      ⟨1, Vector.replicate _ unknownPage⟩ := by
    cases secondHalf with
    | false => exact congrArg (Tape.mk 1) Vector.map_replicate
    | true => exact congrArg (Tape.mk 1) Vector.map_replicate
  have constraint_eq :
      twofoldMemory.constraint (storedPath secondHalf steps).state =
        ⟨[unknownAssumed]⟩ := by
    obtain ⟨record, mirrors⟩ :=
      ConstraintFamily.exists_mirrors_build twofoldHistory
    apply Constraint.clauses_inj.mp
    refine (mirrors.clauses_member _).trans ?_
    cases secondHalf <;> rfl
  unfold Memory.readState
  rw [tape_eq, constraint_eq]
  rfl

/-- The two halves of the memory hold states that compare equal. -/
theorem twins_storedPath :
    twofoldMemory.Twins (storedPath false 5).state
      (storedPath true 9).state := by
  have size_eq : twofoldMemory.constraints.members.size = 3 := by
    obtain ⟨record, mirrors⟩ :=
      ConstraintFamily.exists_mirrors_build twofoldHistory
    rw [← @Array.size_map _ _ SharedConstraint.clauses]
    exact congrArg Array.size mirrors.clauses
  refine ⟨⟨Nat.zero_lt_two, ?_⟩, ⟨Nat.one_lt_two, ?_⟩, Nat.zero_ne_one, ?_⟩
  · rw [size_eq]
    decide
  · rw [size_eq]
    decide
  · rw [Memory.sameState_iff, readState_storedPath, readState_storedPath]
    exact decide_eq_true rfl

section Forked

variable {executed location : Nat}

/-- A slice ends in a fork if it is read so. -/
theorem Slice.exists_forked_of_read
    {read : σ -> τ}
    {zero nonZero : τ}
    {slice : Slice σ}
    (read_eq : ⟨executed, .forked location zero nonZero⟩ =
      Slice.mk slice.executed (slice.outcome.map read)) :
    ∃ zero nonZero, slice = ⟨executed, .forked location zero nonZero⟩ := by
  obtain ⟨sliceExecuted, outcome⟩ := slice
  cases outcome with
  | forked sliceLocation zero nonZero =>
      cases read_eq
      exact ⟨zero, nonZero, rfl⟩
  | _ => cases read_eq

/-- A slice that corresponds to one that ends in a fork ends in a fork too. -/
theorem Slice.exists_forked_of_corresponds
    {same : σ -> σ -> Prop}
    {zero nonZero : σ}
    {slice other : Slice σ}
    (slice_eq : slice = ⟨executed, .forked location zero nonZero⟩)
    (executed_eq : slice.executed = other.executed)
    (corresponds : slice.outcome.Corresponds same same other.outcome) :
    ∃ otherZero otherNonZero,
      other = ⟨executed, .forked location otherZero otherNonZero⟩ ∧
        same zero otherZero ∧ same nonZero otherNonZero := by
  subst slice_eq
  obtain ⟨otherExecuted, otherOutcome⟩ := other
  obtain rfl := executed_eq
  cases corresponds with
  | forked location zeroSame nonZeroSame =>
      exact ⟨_, _, rfl, zeroSame, nonZeroSame⟩

end Forked

/-- Two paths with different names and numbers of steps, which have neither a
page nor an addition in common, compare equal.  Both fork at the loop, into
sides that compare equal.  So they do when they are run one after the other in
their memory. -/
theorem equal_paths_behave_alike_apart :
    let program := Path.readThenTest
    let policy := OutputPolicy.rejectSymbolic
    let stored := storedPath false 5
    let otherStored := storedPath true 9
    let path := twofoldMemory.read stored
    let other := twofoldMemory.read otherStored
    let first := twofoldMemory.step program policy (.counting 2) 4 stored
    let second := first.1.step program policy (.counting 7) 4 otherStored
    let tree := twofoldMemory.forkTree program policy [1, 3] stored.state
    let otherTree := tree.1.forkTree program policy [1, 3] otherStored.state
    twofoldMemory.equals stored otherStored = true ∧
      (∃ zero nonZero otherZero otherNonZero : Path,
        path.step program policy (.counting 2) 4 =
            ⟨1, .forked 1 zero nonZero⟩ ∧
          other.step program policy (.counting 7) 4 =
            ⟨1, .forked 1 otherZero otherNonZero⟩ ∧
          zero.Agrees otherZero ∧ nonZero.Agrees otherNonZero ∧
          path.state.forkTree program policy [1, 3] =
            other.state.forkTree program policy [1, 3]) ∧
      ∃ zero nonZero otherZero otherNonZero : StoredPath,
        first.2 = ⟨1, .forked 1 zero nonZero⟩ ∧
          second.2 = ⟨1, .forked 1 otherZero otherNonZero⟩ ∧
          second.1.Twins zero.state otherZero.state ∧
          second.1.Twins nonZero.state otherNonZero.state ∧
          tree.2 = otherTree.2 := by
  intro program policy stored otherStored path other first second tree otherTree
  obtain ⟨compares, behave, reads, storedBehave⟩ :=
    equal_paths_behave_alike program policy
  have twins : twofoldMemory.Twins stored.state otherStored.state :=
    twins_storedPath
  have agrees : path.Agrees other := (compares _ _ _).mp twins.equal
  obtain ⟨zero, nonZero, step_eq⟩ : ∃ zero nonZero,
      path.step program policy (.counting 2) 4 =
        ⟨1, .forked 1 zero nonZero⟩ := by
    have state_eq : path.state = unknownState 5 := readState_storedPath false 5
    unfold Path.step
    rw [state_eq]
    exact ⟨_, _, rfl⟩
  refine ⟨twins.equal, ?_, ?_⟩
  · obtain ⟨slices, trees⟩ := behave path other agrees
    obtain ⟨executed_eq, corresponds⟩ :=
      slices 4 (.counting 2) (.counting 7)
    obtain ⟨otherZero, otherNonZero, otherStep_eq, zeroAgrees, nonZeroAgrees⟩ :=
      Slice.exists_forked_of_corresponds step_eq executed_eq corresponds
    exact ⟨_, _, _, _, step_eq, otherStep_eq, zeroAgrees, nonZeroAgrees,
      trees [1, 3]⟩
  · obtain ⟨slices, trees⟩ := storedBehave _ stored otherStored twins
    obtain ⟨executed_eq, corresponds⟩ :=
      slices 4 (.counting 2) (.counting 7)
    -- The stored path forks because the path that is read does.
    obtain ⟨storedZero, storedNonZero, first_eq⟩ :=
      Slice.exists_forked_of_read
        (step_eq.symm.trans (reads _ stored twins.holds 4 (.counting 2)))
    obtain ⟨otherZero, otherNonZero, second_eq, zeroTwins, nonZeroTwins⟩ :=
      Slice.exists_forked_of_corresponds first_eq executed_eq corresponds
    exact ⟨_, _, _, _, first_eq, second_eq, zeroTwins, nonZeroTwins,
      trees [1, 3]⟩

end SymbolicTape
