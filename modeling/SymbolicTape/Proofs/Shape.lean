import SymbolicTape.Proofs.Execution
import SymbolicTape.Proofs.Feasibility

/-!
# The shape of symbolic data

A program only ever adds known bytes to what it reads.  Every symbolic value
that a reachable state holds or has written, and every term that its constraint
tests, is therefore the canonical term of one input byte plus an offset.  The
linear form of such a term has a single coefficient, and it is one.  This is why
the check for impossible paths understands every clause that can arise.
-/

namespace SymbolicTape

namespace Term

/-- The canonical term of an input byte plus an offset. -/
def shiftedInput (index : Nat) (offset : UInt8) : Term :=
  (Term.add (.symbol (inputName index)) (.constant offset)).simplify

end Term

namespace LinearForm

/-- The form of a canonical term of one unknown byte. -/
theorem ofTerm_addOffset (name : String) (offset : UInt8) :
    ofTerm (addOffset offset (some (.symbol name))) =
      ⟨[(name, 1)], offset⟩ := by
  unfold addOffset
  dsimp only
  split
  · rename_i offsetZero
    subst offsetZero
    rfl
  · split
    · simp [ofTerm, accumulate, addCoefficient]
    · have negated : -offset * -1 = offset := by grind
      simp [ofTerm, accumulate, addCoefficient, negated]

theorem ofTerm_shiftedInput (index : Nat) (offset : UInt8) :
    ofTerm (Term.shiftedInput index offset) =
      ⟨[(inputName index, 1)], offset⟩ := by
  have form_eq : ofTerm
      (.add (.symbol (inputName index)) (.constant offset)) =
        ⟨[(inputName index, 1)], offset⟩ := by
    simp [ofTerm, accumulate, addCoefficient]
  unfold Term.shiftedInput Term.simplify
  rw [form_eq]
  exact ofTerm_addOffset (inputName index) offset

end LinearForm

namespace Term

/-- A term of the same linear form has the same canonical term. -/
theorem simplify_eq_shiftedInput
    {term : Term}
    {index : Nat}
    {offset : UInt8}
    (form_eq : LinearForm.ofTerm term = ⟨[(inputName index, 1)], offset⟩) :
    term.simplify = shiftedInput index offset := by
  unfold shiftedInput simplify
  rw [form_eq]
  simp [LinearForm.ofTerm, LinearForm.accumulate, LinearForm.addCoefficient]

@[simp] theorem simplify_symbol (index : Nat) :
    (symbol (inputName index)).simplify = shiftedInput index 0 :=
  simplify_eq_shiftedInput rfl

@[simp] theorem simplify_shiftedInput (index : Nat) (offset : UInt8) :
    (shiftedInput index offset).simplify = shiftedInput index offset :=
  simplify_eq_shiftedInput (LinearForm.ofTerm_shiftedInput index offset)

@[simp] theorem simplify_shiftedInput_add
    (index : Nat)
    (offset delta : UInt8) :
    (add (shiftedInput index offset) (constant delta)).simplify =
      shiftedInput index (offset + delta) := by
  apply simplify_eq_shiftedInput
  have form_eq := LinearForm.ofTerm_shiftedInput index offset
  unfold LinearForm.ofTerm at form_eq ⊢
  simp [LinearForm.accumulate, form_eq]

@[simp] theorem simplify_shiftedInput_sub
    (index : Nat)
    (offset delta : UInt8) :
    (sub (shiftedInput index offset) (constant delta)).simplify =
      shiftedInput index (offset - delta) := by
  apply simplify_eq_shiftedInput
  have form_eq := LinearForm.ofTerm_shiftedInput index offset
  unfold LinearForm.ofTerm at form_eq ⊢
  have shifted : offset + delta * -1 = offset - delta := by grind
  simp only [LinearForm.accumulate, form_eq]
  rw [shifted]

/-- An input byte is not known, whatever is added to it. -/
theorem shiftedInput_ne_constant
    (index : Nat)
    (offset value : UInt8) :
    shiftedInput index offset ≠ constant value := by
  intro equal
  have form_eq := LinearForm.ofTerm_shiftedInput index offset
  rw [equal] at form_eq
  cases form_eq

end Term

namespace Value

/-- A value is known, or it is one of the first `count` input bytes plus an
offset. -/
inductive IsShifted (count : Nat) : Value -> Prop
  | concrete (byte : UInt8) : IsShifted count (.concrete byte)
  | symbolic
      {index : Nat}
      (offset : UInt8)
      (wasRead : index < count) :
      IsShifted count (.symbolic (Term.shiftedInput index offset))

theorem IsShifted.mono
    {count larger : Nat}
    {value : Value}
    (shifted : value.IsShifted count)
    (atMost : count ≤ larger) :
    value.IsShifted larger := by
  cases shifted with
  | concrete byte => exact .concrete byte
  | symbolic offset wasRead =>
      exact .symbolic offset (Nat.lt_of_lt_of_le wasRead atMost)

/-- Making a value canonical keeps a term that simplifies to a shifted input
symbolic. -/
theorem canonicalize_symbolic
    {term : Term}
    {index : Nat}
    {offset : UInt8}
    (simplify_eq : term.simplify = Term.shiftedInput index offset) :
    (symbolic term).canonicalize =
      .symbolic (Term.shiftedInput index offset) := by
  unfold canonicalize
  dsimp only
  split
  · rename_i byte constant_eq
    rw [simplify_eq] at constant_eq
    exact absurd constant_eq (Term.shiftedInput_ne_constant index offset byte)
  · rw [simplify_eq]

theorem IsShifted.add
    {count : Nat}
    {value : Value}
    (delta : UInt8)
    (shifted : value.IsShifted count) :
    (value.add delta).canonicalize.IsShifted count := by
  cases shifted with
  | concrete byte => exact .concrete _
  | symbolic offset wasRead =>
      unfold Value.add
      dsimp only
      rw [canonicalize_symbolic (Term.simplify_shiftedInput_add _ _ _)]
      exact .symbolic _ wasRead

theorem IsShifted.sub
    {count : Nat}
    {value : Value}
    (delta : UInt8)
    (shifted : value.IsShifted count) :
    (value.sub delta).canonicalize.IsShifted count := by
  cases shifted with
  | concrete byte => exact .concrete _
  | symbolic offset wasRead =>
      unfold Value.sub
      dsimp only
      rw [canonicalize_symbolic (Term.simplify_shiftedInput_sub _ _ _)]
      exact .symbolic _ wasRead

theorem isShifted_input (index : Nat) :
    (Value.input (inputName index)).canonicalize.IsShifted (index + 1) := by
  unfold input
  rw [canonicalize_symbolic (Term.simplify_symbol index)]
  exact .symbolic 0 (Nat.lt_succ_self index)

end Value

namespace Predicate

/-- A condition tests one of the first `count` input bytes plus an offset. -/
def IsShifted (count : Nat) (predicate : Predicate) : Prop :=
  ∃ index offset,
    index < count ∧ predicate.term = Term.shiftedInput index offset

theorem IsShifted.mono
    {count larger : Nat}
    {predicate : Predicate}
    (shifted : predicate.IsShifted count)
    (atMost : count ≤ larger) :
    predicate.IsShifted larger := by
  obtain ⟨index, offset, wasRead, term_eq⟩ := shifted
  exact ⟨index, offset, Nat.lt_of_lt_of_le wasRead atMost, term_eq⟩

theorem IsShifted.negate
    {count : Nat}
    {predicate : Predicate}
    (shifted : predicate.IsShifted count) :
    predicate.negate.IsShifted count := by
  obtain ⟨index, offset, wasRead, term_eq⟩ := shifted
  exact ⟨index, offset, wasRead, by rw [term_negate, term_eq]⟩

/-- The check for impossible paths understands such a condition, because one is
its own inverse. -/
theorem IsShifted.isUnderstood
    {count : Nat}
    {predicate : Predicate}
    (shifted : predicate.IsShifted count) :
    predicate.isUnderstood = true := by
  obtain ⟨index, offset, -, term_eq⟩ := shifted
  have one_inverse : inverse? 1 = some 1 := by decide
  simp [Predicate.isUnderstood, term_eq, LinearForm.ofTerm_shiftedInput,
    LinearForm.root?, LinearForm.single?, one_inverse]

end Predicate

/-- A zero test that is left open tests the value itself. -/
theorem Value.IsShifted.zeroTest
    {count : Nat}
    {value : Value}
    {whenZero : Predicate}
    (shifted : value.IsShifted count)
    (tested : value.zeroTest = .undetermined whenZero) :
    whenZero.IsShifted count := by
  unfold Value.zeroTest at tested
  cases shifted with
  | concrete byte =>
      unfold Value.canonicalize Value.testByte at tested
      dsimp only at tested
      split at tested <;> cases tested
  | symbolic offset wasRead =>
      rw [Value.canonicalize_symbolic (Term.simplify_shiftedInput _ _)]
        at tested
      cases tested
      exact ⟨_, offset, wasRead, rfl⟩

/-! ## Reachable states -/

namespace State

/-- All symbolic data of a state is input that was read, plus offsets. -/
structure WellShaped (state : State) : Prop where
  /-- The cells of the tape. -/
  cells : ∀ index, (state.tape.cell index).IsShifted state.inputCounter
  /-- The values written. -/
  output : ∀ value ∈ state.output, value.IsShifted state.inputCounter
  /-- The clauses of the constraint. -/
  clauses :
    ∀ clause ∈ state.constraint.clauses, clause.IsShifted state.inputCounter

/-- The check for impossible paths is exact on the constraint of such a
state. -/
theorem WellShaped.infeasible_iff
    {state : State}
    (shaped : state.WellShaped) :
    state.constraint.feasibility = .infeasible ↔
      ¬state.constraint.Satisfiable := by
  apply Constraint.infeasible_iff_of_isUnderstood
  intro clause member
  exact (shaped.clauses clause member).isUnderstood

theorem wellShaped_initial (capacity : Nat) :
    (State.initial capacity).WellShaped := by
  refine ⟨?_, ?_, ?_⟩
  · intro index
    have blank : (Tape.blank capacity).cell index = .concrete 0 := by
      simp [Tape.cell, Tape.blank, Tape.blankPage, Value.zero]
    exact blank ▸ .concrete 0
  · intro value member
    simp [State.initial] at member
  · intro clause member
    simp [State.initial, Constraint.clauses] at member

/-- Storing a value of the right shape keeps the shape, also if more input was
read before. -/
theorem WellShaped.store
    {state : State}
    {value : Value}
    {count : Nat}
    (shaped : state.WellShaped)
    (index : Fin state.tape.capacity)
    (shifted : value.canonicalize.IsShifted count)
    (atMost : state.inputCounter ≤ count) :
    WellShaped
      { state with
        tape := state.tape.store index value
        inputCounter := count } := by
  refine ⟨?_, ?_, ?_⟩
  · intro other
    have stored := Tape.cell_store state.tape index other value
    refine stored ▸ ?_
    split
    · exact shifted
    · exact (shaped.cells other).mono atMost
  · intro written member
    exact (shaped.output written member).mono atMost
  · intro clause member
    exact (shaped.clauses clause member).mono atMost

/-- Assuming a clause of the right shape keeps the shape. -/
theorem WellShaped.assume
    {state : State}
    {clause : Predicate}
    (shaped : state.WellShaped)
    (shifted : clause.IsShifted state.inputCounter) :
    (state.assume clause).WellShaped := by
  refine ⟨shaped.cells, shaped.output, ?_⟩
  intro other member
  unfold State.assume at member
  rw [Constraint.clauses_and, List.mem_append] at member
  rcases member with before | added
  · exact shaped.clauses other before
  · rw [List.mem_singleton.mp added]
    exact shifted

/-- Moving on in the program keeps the shape. -/
theorem WellShaped.move
    {state : State}
    (shaped : state.WellShaped)
    (instructionPointer : Nat)
    (pointer : Int64)
    (loopStack : List Nat)
    (steps : Nat) :
    WellShaped
      { state with
        instructionPointer := instructionPointer
        pointer := pointer
        loopStack := loopStack
        steps := steps } :=
  ⟨shaped.cells, shaped.output, shaped.clauses⟩

/-- The value of a cell that can be looked at has the right shape. -/
theorem WellShaped.get
    {state : State}
    {value : Value}
    (shaped : state.WellShaped)
    (got : state.tape.get state.pointer = .ok value) :
    value.IsShifted state.inputCounter := by
  unfold Tape.get at got
  cases found : state.tape.index? state.pointer with
  | error fault =>
      rw [found] at got
      cases got
  | ok index =>
      rw [found] at got
      cases got
      exact shaped.cells index

theorem WellShaped.changeCell
    {state : State}
    {change : Value -> Value}
    (shaped : state.WellShaped)
    (keepsShape : ∀ value : Value, value.IsShifted state.inputCounter ->
      (change value).canonicalize.IsShifted state.inputCounter) :
    (state.changeCell change).All WellShaped := by
  unfold State.changeCell
  split
  · trivial
  · rename_i index found
    exact (shaped.store index (keepsShape _ (shaped.cells index))
      (Nat.le_refl _)).move _ _ _ _

theorem WellShaped.testAtEnter
    {state : State}
    (program : Program)
    (shaped : state.WellShaped) :
    (state.testAtEnter program).All WellShaped := by
  unfold State.testAtEnter
  split
  · trivial
  · rename_i value got
    split
    · exact shaped.move _ _ _ _
    · split
      · trivial
      · exact shaped.move _ _ _ _
    · rename_i whenZero tested
      have shifted := (shaped.get got).zeroTest tested
      split
      · trivial
      · exact ⟨(shaped.assume shifted).move _ _ _ _,
          (shaped.assume shifted.negate).move _ _ _ _⟩

theorem WellShaped.testAtExit
    {state : State}
    (shaped : state.WellShaped) :
    state.testAtExit.All WellShaped := by
  unfold State.testAtExit
  split
  · trivial
  · split
    · trivial
    · rename_i value got
      split
      · exact shaped.move _ _ _ _
      · exact shaped.move _ _ _ _
      · rename_i whenZero tested
        have shifted := (shaped.get got).zeroTest tested
        exact ⟨(shaped.assume shifted).move _ _ _ _,
          (shaped.assume shifted.negate).move _ _ _ _⟩

theorem WellShaped.readInput
    {state : State}
    (shaped : state.WellShaped) :
    state.readInput.All WellShaped := by
  unfold State.readInput
  split
  · trivial
  · rename_i index found
    exact (shaped.store index (Value.isShifted_input state.inputCounter)
      (Nat.le_succ _)).move _ _ _ _

theorem WellShaped.writeOutput
    {state : State}
    (policy : OutputPolicy)
    (shaped : state.WellShaped) :
    (state.writeOutput policy).All WellShaped := by
  unfold State.writeOutput
  split
  · trivial
  · rename_i value got
    split
    · trivial
    · refine ⟨shaped.cells, ?_, shaped.clauses⟩
      intro written member
      rcases Array.mem_push.mp member with before | added
      · exact shaped.output written before
      · rw [added]
        exact shaped.get got

/-- Every instruction keeps the shape. -/
theorem WellShaped.execute
    {state : State}
    (program : Program)
    (policy : OutputPolicy)
    (opcode : Opcode)
    (shaped : state.WellShaped) :
    (state.execute program policy opcode).All WellShaped := by
  cases opcode with
  | moveRight => exact shaped.move _ _ _ _
  | moveLeft => exact shaped.move _ _ _ _
  | increment => exact shaped.changeCell fun _ shifted => shifted.add 1
  | decrement => exact shaped.changeCell fun _ shifted => shifted.sub 1
  | loopEnter => exact shaped.testAtEnter program
  | loopExit => exact shaped.testAtExit
  | read => exact shaped.readInput
  | write => exact shaped.writeOutput policy
  | comment character => exact shaped.move _ _ _ _

theorem WellShaped.effect
    {program : Program}
    {policy : OutputPolicy}
    {state : State}
    {effect : Effect}
    (shaped : state.WellShaped)
    (effect_eq : state.effect? program policy = some effect) :
    effect.All WellShaped := by
  obtain ⟨opcode, -, rfl⟩ := Option.map_eq_some_iff.mp effect_eq
  exact WellShaped.execute program policy opcode (shaped.move _ _ _ _)

/-- Every reachable state has this shape. -/
theorem Reachable.wellShaped
    {program : Program}
    {policy : OutputPolicy}
    {capacity : Nat}
    {state : State}
    (reachable : Reachable program policy capacity state) :
    state.WellShaped :=
  reachable.invariant (wellShaped_initial capacity) WellShaped.effect
    fun shaped => shaped.move _ _ _ _

end State
end SymbolicTape
