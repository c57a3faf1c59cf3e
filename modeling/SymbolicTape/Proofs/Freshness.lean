import SymbolicTape.Proofs.Shape
import SymbolicTape.Proofs.Simulation

/-!
# Fresh names

An instruction stores in at most one cell, and what it stores is the old value
plus a known byte or the name of the next read.  The first kind keeps the names
of the cell.  The second kind brings in a name that nothing in the state
mentions, because all symbolic data goes back to earlier reads.  So every name
stays in the one cell that it was read into.
-/

namespace SymbolicTape

namespace Term

/-- A shifted input is about a single input byte. -/
@[simp] theorem names_shiftedInput (index : Nat) (offset : UInt8) :
    (shiftedInput index offset).names = [inputName index] := by
  have term_eq : shiftedInput index offset =
      LinearForm.addOffset offset (some (.symbol (inputName index))) := by
    rw [← simplify_shiftedInput]
    unfold simplify
    rw [LinearForm.ofTerm_shiftedInput]
    rfl
  rw [term_eq]
  unfold LinearForm.addOffset
  dsimp only
  split
  · rfl
  · split <;> rfl

end Term

namespace Value

/-- The names that occur in a value. -/
def names (value : Value) : List String := value.toTerm.names

@[simp] theorem names_concrete (byte : UInt8) :
    (concrete byte).names = [] := rfl

@[simp] theorem names_symbolic (term : Term) :
    (symbolic term).names = term.names := rfl

/-- Adding a known byte keeps the names. -/
theorem IsShifted.names_add
    {count : Nat}
    {value : Value}
    (shifted : value.IsShifted count)
    (delta : UInt8) :
    (value.add delta).canonicalize.names = value.names := by
  cases shifted with
  | concrete byte => rfl
  | symbolic offset wasRead =>
      unfold Value.add
      dsimp only
      rw [canonicalize_symbolic (Term.simplify_shiftedInput_add _ _ _)]
      simp

/-- Subtracting a known byte keeps the names. -/
theorem IsShifted.names_sub
    {count : Nat}
    {value : Value}
    (shifted : value.IsShifted count)
    (delta : UInt8) :
    (value.sub delta).canonicalize.names = value.names := by
  cases shifted with
  | concrete byte => rfl
  | symbolic offset wasRead =>
      unfold Value.sub
      dsimp only
      rw [canonicalize_symbolic (Term.simplify_shiftedInput_sub _ _ _)]
      simp

theorem names_input (index : Nat) :
    (input (inputName index)).canonicalize.names = [inputName index] := by
  unfold input
  rw [canonicalize_symbolic (Term.simplify_symbol index)]
  simp

/-- The name of a later read does not occur. -/
theorem IsShifted.not_mem_names
    {count : Nat}
    {value : Value}
    (shifted : value.IsShifted count) :
    inputName count ∉ value.names := by
  cases shifted with
  | concrete byte => simp
  | symbolic offset wasRead =>
      rw [names_symbolic, Term.names_shiftedInput, List.mem_singleton]
      intro same
      exact Nat.ne_of_gt wasRead (inputName_injective same)

end Value

theorem Predicate.IsShifted.not_mem_names
    {count : Nat}
    {predicate : Predicate}
    (shifted : predicate.IsShifted count) :
    inputName count ∉ predicate.term.names := by
  obtain ⟨index, offset, wasRead, term_eq⟩ := shifted
  rw [term_eq, Term.names_shiftedInput, List.mem_singleton]
  intro same
  exact Nat.ne_of_gt wasRead (inputName_injective same)

/-! ## Names on the tape -/

namespace Tape

/-- No name occurs in two cells. -/
def Separate (tape : Tape) : Prop :=
  ∀ (first second : Fin tape.capacity) (name : String),
    name ∈ (tape.cell first).names -> name ∈ (tape.cell second).names ->
      first = second

theorem separate_blank (capacity : Nat) : (blank capacity).Separate := by
  intro first second name inFirst
  have zero : (blank capacity).cell first = .concrete 0 := by
    simp [cell, blank, blankPage, Value.zero]
  rw [zero] at inFirst
  cases inFirst

/-- Storing a value keeps the cells separate if no other cell has a name of the
value. -/
theorem Separate.store
    {tape : Tape}
    {index : Fin tape.capacity}
    {value : Value}
    (separate : tape.Separate)
    (apart : ∀ other name, name ∈ value.canonicalize.names ->
      name ∈ (tape.cell other).names -> other = index) :
    (tape.store index value).Separate := by
  intro (first : Fin tape.capacity) (second : Fin tape.capacity) name inFirst
    inSecond
  rw [cell_store] at inFirst inSecond
  split at inFirst
  · rename_i firstStored
    split at inSecond
    · rename_i secondStored
      rw [firstStored, secondStored]
    · rw [firstStored]
      exact (apart second name inFirst inSecond).symm
  · split at inSecond
    · rename_i secondStored
      rw [secondStored]
      exact apart first name inSecond inFirst
    · exact separate first second name inFirst inSecond

/-- What an instruction can do to a tape after a number of reads. -/
inductive Changes (reads : Nat) (tape : Tape) : Tape -> Prop
  | none : Changes reads tape tape
  | add (index : Fin tape.capacity) (delta : UInt8) :
      Changes reads tape (tape.store index ((tape.cell index).add delta))
  | sub (index : Fin tape.capacity) (delta : UInt8) :
      Changes reads tape (tape.store index ((tape.cell index).sub delta))
  | read (index : Fin tape.capacity) :
      Changes reads tape (tape.store index (.input (inputName reads)))

/-- Every change keeps the cells separate. -/
theorem Changes.separate
    {reads : Nat}
    {tape after : Tape}
    (changes : Changes reads tape after)
    (shifted : ∀ index, (tape.cell index).IsShifted reads)
    (separate : tape.Separate) :
    after.Separate := by
  cases changes with
  | none => exact separate
  | add index delta =>
      refine separate.store fun other name occurs inOther => ?_
      rw [(shifted index).names_add] at occurs
      exact separate other index name inOther occurs
  | sub index delta =>
      refine separate.store fun other name occurs inOther => ?_
      rw [(shifted index).names_sub] at occurs
      exact separate other index name inOther occurs
  | read index =>
      -- The new name is in no other cell, as those go back to earlier reads.
      refine separate.store fun other name occurs inOther => ?_
      rw [Value.names_input, List.mem_singleton] at occurs
      rw [occurs] at inOther
      exact absurd inOther (shifted other).not_mem_names

end Tape

namespace State

/-- The tape after the effect of an instruction is one that the state can
change to. -/
def ChangesBy (state : State) (effect : Effect) : Prop :=
  effect.All fun after =>
    Tape.Changes state.inputCounter state.tape after.tape

theorem changesBy_changeCell
    {change : Value -> Value}
    {state : State}
    (allowed : ∀ index, Tape.Changes state.inputCounter state.tape
      (state.tape.store index (change (state.tape.cell index)))) :
    state.ChangesBy (state.changeCell change) := by
  unfold changeCell
  split
  · trivial
  · exact allowed _

theorem changesBy_testAtEnter (program : Program) (state : State) :
    state.ChangesBy (state.testAtEnter program) := by
  unfold testAtEnter
  split
  · trivial
  · split
    · exact .none
    · split
      · trivial
      · exact .none
    · split
      · trivial
      · exact ⟨.none, .none⟩

theorem changesBy_testAtExit (state : State) :
    state.ChangesBy state.testAtExit := by
  unfold testAtExit
  split
  · trivial
  · split
    · trivial
    · split
      · exact .none
      · exact .none
      · exact ⟨.none, .none⟩

theorem changesBy_readInput (state : State) :
    state.ChangesBy state.readInput := by
  unfold readInput
  split
  · trivial
  · exact .read _

theorem changesBy_writeOutput (policy : OutputPolicy) (state : State) :
    state.ChangesBy (state.writeOutput policy) := by
  unfold writeOutput
  split
  · trivial
  · split
    · trivial
    · exact .none

/-- Every instruction changes the tape in one of these ways. -/
theorem changesBy_execute
    (program : Program)
    (policy : OutputPolicy)
    (opcode : Opcode)
    (state : State) :
    state.ChangesBy (state.execute program policy opcode) := by
  cases opcode with
  | moveRight => exact .none
  | moveLeft => exact .none
  | increment => exact changesBy_changeCell fun index => .add index 1
  | decrement => exact changesBy_changeCell fun index => .sub index 1
  | loopEnter => exact changesBy_testAtEnter program state
  | loopExit => exact changesBy_testAtExit state
  | read => exact changesBy_readInput state
  | write => exact changesBy_writeOutput policy state
  | comment character => exact .none

/-! ## Reachable states -/

/-- All symbolic data goes back to input that was read, and no name occurs in
two cells. -/
structure WellNamed (state : State) : Prop where
  shaped : state.WellShaped
  separate : state.tape.Separate

theorem WellNamed.effect
    {program : Program}
    {policy : OutputPolicy}
    {state : State}
    {effect : Effect}
    (named : state.WellNamed)
    (effect_eq : state.effect? program policy = some effect) :
    effect.All WellNamed := by
  have shapes := named.shaped.effect effect_eq
  obtain ⟨opcode, -, rfl⟩ := Option.map_eq_some_iff.mp effect_eq
  have changes := changesBy_execute program policy opcode state.countStep
  have separates {after : Tape}
      (changes : Tape.Changes state.inputCounter state.tape after) :
      after.Separate :=
    changes.separate named.shaped.cells named.separate
  cases executed : state.countStep.execute program policy opcode with
  | next after =>
      rw [executed] at shapes changes
      exact ⟨shapes, separates changes⟩
  | split zero nonZero =>
      rw [executed] at shapes changes
      exact ⟨⟨shapes.1, separates changes.1⟩, ⟨shapes.2, separates changes.2⟩⟩
  | fault after reason => trivial

theorem Reachable.wellNamed
    {program : Program}
    {policy : OutputPolicy}
    {capacity : Nat}
    {state : State}
    (reachable : Reachable program policy capacity state) :
    state.WellNamed :=
  reachable.invariant
    ⟨wellShaped_initial capacity, Tape.separate_blank capacity⟩
    WellNamed.effect
    fun named => ⟨named.shaped.move _ _ _ _, named.separate⟩

/-- A name occurs somewhere in a state. -/
inductive Mentions (state : State) (name : String) : Prop
  | cell
      (index : Fin state.tape.capacity)
      (occurs : name ∈ (state.tape.cell index).names)
  | output
      {value : Value}
      (written : value ∈ state.output)
      (occurs : name ∈ value.names)
  | clause
      {clause : Predicate}
      (assumed : clause ∈ state.constraint.clauses)
      (occurs : name ∈ clause.term.names)

/-- Nothing mentions the name of the next read. -/
theorem WellShaped.not_mentions
    {state : State}
    (shaped : state.WellShaped) :
    ¬state.Mentions (inputName state.inputCounter) := by
  intro mentions
  cases mentions with
  | cell index occurs => exact (shaped.cells index).not_mem_names occurs
  | output written occurs =>
      exact (shaped.output _ written).not_mem_names occurs
  | clause assumed occurs =>
      exact (shaped.clauses _ assumed).not_mem_names occurs

/-- A read that goes on stores the name of the number of reads before it. -/
theorem exists_store_of_read
    {program : Program}
    {policy : OutputPolicy}
    {state after : State}
    (isRead : program.instruction? state.instructionPointer = some .read)
    (effect_eq : state.effect? program policy = some (.next after)) :
    ∃ index, after.tape =
      state.tape.store index (.input (inputName state.inputCounter)) := by
  unfold effect? at effect_eq
  rw [isRead, Option.map_some, Option.some_inj] at effect_eq
  unfold execute readInput at effect_eq
  dsimp only at effect_eq
  split at effect_eq
  · cases effect_eq
  · rename_i index found
    cases effect_eq
    exact ⟨index, rfl⟩

end State

/-- In every reachable state all symbolic data has the shape of one earlier
input byte plus an offset, in canonical form: the cells, the values written and
the terms tested by the constraint.  Each name occurs in at most one cell.  The
next read stores a name that the state does not mention. -/
theorem symbolic_data_is_fresh
    {program : Program}
    {policy : OutputPolicy}
    {capacity : Nat}
    {state : State}
    (reachable : State.Reachable program policy capacity state) :
    (∀ index term, state.tape.cell index = .symbolic term ->
      ∃ input offset, input < state.inputCounter ∧
        term = Term.shiftedInput input offset) ∧
    (∀ term, Value.symbolic term ∈ state.output ->
      ∃ input offset, input < state.inputCounter ∧
        term = Term.shiftedInput input offset) ∧
    (∀ clause ∈ state.constraint.clauses,
      ∃ input offset, input < state.inputCounter ∧
        clause.term = Term.shiftedInput input offset) ∧
    state.tape.Separate ∧
    ¬state.Mentions (inputName state.inputCounter) ∧
    (∀ after, program.instruction? state.instructionPointer = some .read ->
      state.effect? program policy = some (.next after) ->
        ∃ index, after.tape =
          state.tape.store index (.input (inputName state.inputCounter))) := by
  obtain ⟨shaped, separate⟩ := reachable.wellNamed
  have explained {term : Term}
      (shifted : (Value.symbolic term).IsShifted state.inputCounter) :
      ∃ input offset, input < state.inputCounter ∧
        term = Term.shiftedInput input offset := by
    cases shifted with
    | symbolic offset wasRead => exact ⟨_, offset, wasRead, rfl⟩
  refine ⟨?_, ?_, shaped.clauses, separate, shaped.not_mentions, ?_⟩
  · intro index term cell_eq
    exact explained (cell_eq ▸ shaped.cells index)
  · intro term written
    exact explained (shaped.output _ written)
  · intro after isRead effect_eq
    exact State.exists_store_of_read isRead effect_eq

/-- A loop that reads, increments and writes until it reads a zero. -/
def incrementLoop : Program :=
  ⟨#[.read, .loopEnter, .increment, .write, .moveRight, .read, .loopExit],
    none⟩

/-- In front of the second read, the first input byte has been tested, changed
and written. -/
theorem symbolic_data_is_fresh_incrementLoop :
    ∃ state, State.Reachable incrementLoop .recordSymbolic 2 state ∧
      state.output = #[.symbolic (Term.shiftedInput 0 1)] ∧
      state.constraint.clauses = [.isNonZero (.symbol (inputName 0))] ∧
      state.Mentions (inputName 0) ∧
      ¬state.Mentions (inputName 1) ∧
      ∃ after index,
        state.effect? incrementLoop .recordSymbolic = some (.next after) ∧
          after.tape = state.tape.store index (.input (inputName 1)) := by
  obtain ⟨state, reachable, isRead, counter_eq, output_eq, clauses_eq, after,
      effect_eq⟩ :
      ∃ state, State.Reachable incrementLoop .recordSymbolic 2 state ∧
        incrementLoop.instruction? state.instructionPointer = some .read ∧
        state.inputCounter = 1 ∧
        state.output = #[.symbolic (Term.shiftedInput 0 1)] ∧
        state.constraint.clauses = [.isNonZero (.symbol (inputName 0))] ∧
        ∃ after, state.effect? incrementLoop .recordSymbolic =
          some (.next after) :=
    ⟨_, .step 3 (.step 2 .initial (.tail _ (.head _))) (.head _), rfl, rfl,
      rfl, rfl, _, rfl⟩
  obtain ⟨-, -, -, -, unmentioned, stores⟩ := symbolic_data_is_fresh reachable
  rw [counter_eq] at unmentioned stores
  have mentioned : state.Mentions (inputName 0) :=
    .clause (clauses_eq ▸ List.mem_singleton_self _) (List.mem_singleton_self _)
  obtain ⟨index, stored⟩ := stores after isRead effect_eq
  exact ⟨state, reachable, output_eq, clauses_eq, mentioned, unmentioned, after,
    index, effect_eq, stored⟩

end SymbolicTape
