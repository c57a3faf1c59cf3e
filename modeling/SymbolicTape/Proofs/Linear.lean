import SymbolicTape.Value

/-!
# The meaning of linear forms

The linear form of a term has the value of the term under every assignment, and
so has the canonical term that is rebuilt from the form.  Making a value
canonical therefore keeps the byte that it stands for, and a zero test tells
the truth about that byte.
-/

namespace SymbolicTape
namespace LinearForm

@[simp] theorem eval_nil (assignment : Assignment) (constant : UInt8) :
    eval assignment ⟨[], constant⟩ = constant := rfl

@[simp] theorem eval_cons
    (assignment : Assignment)
    (name : String)
    (coefficient constant : UInt8)
    (rest : List (String × UInt8)) :
    eval assignment ⟨(name, coefficient) :: rest, constant⟩ =
      coefficient * assignment name + eval assignment ⟨rest, constant⟩ := rfl

/-- The constant offset is a summand of the value. -/
theorem eval_eq_add_constant
    (assignment : Assignment)
    (coefficients : List (String × UInt8))
    (constant : UInt8) :
    eval assignment ⟨coefficients, constant⟩ =
      eval assignment ⟨coefficients, 0⟩ + constant := by
  induction coefficients with
  | nil => simp
  | cons head rest inductionHypothesis =>
      obtain ⟨name, coefficient⟩ := head
      rw [eval_cons, eval_cons, inductionHypothesis, UInt8.add_assoc]

/-- Adding to a coefficient adds a multiple of its unknown byte. -/
theorem eval_addCoefficient
    (assignment : Assignment)
    (name : String)
    (amount constant : UInt8)
    (coefficients : List (String × UInt8)) :
    eval assignment ⟨addCoefficient name amount coefficients, constant⟩ =
      amount * assignment name + eval assignment ⟨coefficients, constant⟩ := by
  induction coefficients with
  | nil =>
      unfold addCoefficient
      split
      · rename_i amountZero
        rw [amountZero]
        simp
      · rfl
  | cons head rest inductionHypothesis =>
      obtain ⟨other, coefficient⟩ := head
      unfold addCoefficient
      split
      · split
        · rename_i amountZero
          rw [amountZero]
          simp
        · rfl
      · rename_i notBefore
        split
        · rw [eval_cons, eval_cons, inductionHypothesis]
          grind
        · -- The names are the same, so the coefficients are added up.
          rename_i notAfter
          have same : name = other :=
            String.le_antisymm (String.not_lt.mp notAfter)
              (String.not_lt.mp notBefore)
          subst same
          split
          · rename_i cancels
            rw [eval_cons]
            grind
          · rw [eval_cons, eval_cons]
            grind

/-- Accumulating a term adds a multiple of its value. -/
theorem eval_accumulate
    (assignment : Assignment)
    (term : Term)
    (scale : UInt8)
    (form : LinearForm) :
    (accumulate term scale form).eval assignment =
      form.eval assignment + scale * term.eval assignment := by
  induction term generalizing scale form with
  | constant value =>
      obtain ⟨coefficients, constant⟩ := form
      have before := eval_eq_add_constant assignment coefficients constant
      have after := eval_eq_add_constant assignment coefficients
        (constant + value * scale)
      simp only [accumulate, Term.eval_constant]
      grind
  | symbol name =>
      simp only [accumulate, Term.eval_symbol]
      rw [eval_addCoefficient, UInt8.add_comm]
  | add left right leftHypothesis rightHypothesis =>
      simp only [accumulate, Term.eval_add]
      rw [rightHypothesis, leftHypothesis]
      grind
  | sub left right leftHypothesis rightHypothesis =>
      simp only [accumulate, Term.eval_sub]
      rw [rightHypothesis, leftHypothesis]
      grind

/-- The linear form of a term has the value of the term. -/
@[simp] theorem eval_ofTerm (assignment : Assignment) (term : Term) :
    (ofTerm term).eval assignment = term.eval assignment := by
  unfold ofTerm
  rw [eval_accumulate, eval_nil]
  simp

/-! ## Rebuilding a term -/

/-- The value of a sum, the empty sum being zero. -/
def evalSum (assignment : Assignment) : Option Term -> UInt8
  | none => 0
  | some sum => sum.eval assignment

theorem evalSum_addSymbol
    (assignment : Assignment)
    (name : String)
    (sum : Option Term) :
    evalSum assignment (addSymbol name sum) =
      evalSum assignment sum + assignment name := by
  cases sum <;> simp [addSymbol, evalSum]

theorem evalSum_subSymbol
    (assignment : Assignment)
    (name : String)
    (sum : Option Term) :
    evalSum assignment (subSymbol name sum) =
      evalSum assignment sum - assignment name := by
  cases sum <;> simp [subSymbol, evalSum]

theorem evalSum_repeat_addSymbol
    (assignment : Assignment)
    (name : String)
    (count : Nat)
    (sum : Option Term) :
    evalSum assignment (Nat.repeat (addSymbol name) count sum) =
      evalSum assignment sum + UInt8.ofNat count * assignment name := by
  induction count with
  | zero => simp [Nat.repeat]
  | succ count inductionHypothesis =>
      rw [Nat.repeat, evalSum_addSymbol, inductionHypothesis,
        UInt8.ofNat_add]
      grind

theorem evalSum_repeat_subSymbol
    (assignment : Assignment)
    (name : String)
    (count : Nat)
    (sum : Option Term) :
    evalSum assignment (Nat.repeat (subSymbol name) count sum) =
      evalSum assignment sum - UInt8.ofNat count * assignment name := by
  induction count with
  | zero => simp [Nat.repeat]
  | succ count inductionHypothesis =>
      rw [Nat.repeat, evalSum_subSymbol, inductionHypothesis,
        UInt8.ofNat_add]
      grind

/-- A multiple is the same whether it is written by additions or by
subtractions. -/
theorem evalSum_addMultiple
    (assignment : Assignment)
    (name : String)
    (coefficient : UInt8)
    (sum : Option Term) :
    evalSum assignment (addMultiple name coefficient sum) =
      evalSum assignment sum + coefficient * assignment name := by
  unfold addMultiple
  split
  · rw [evalSum_repeat_addSymbol, UInt8.ofNat_toNat]
  · rw [evalSum_repeat_subSymbol, UInt8.ofNat_toNat]
    grind

theorem eval_addOffset
    (assignment : Assignment)
    (offset : UInt8)
    (sum : Option Term) :
    (addOffset offset sum).eval assignment =
      evalSum assignment sum + offset := by
  cases sum with
  | none => simp [addOffset, evalSum]
  | some sum =>
      unfold addOffset
      dsimp only [evalSum]
      split
      · rename_i offsetZero
        simp [offsetZero]
      · split
        · rfl
        · rw [Term.eval_sub, Term.eval_constant]
          grind

theorem evalSum_foldl_addMultiple
    (assignment : Assignment)
    (coefficients : List (String × UInt8))
    (sum : Option Term) :
    evalSum assignment
        (coefficients.foldl
          (fun sum (name, coefficient) => addMultiple name coefficient sum)
          sum) =
      evalSum assignment sum + eval assignment ⟨coefficients, 0⟩ := by
  induction coefficients generalizing sum with
  | nil => simp
  | cons head rest inductionHypothesis =>
      obtain ⟨name, coefficient⟩ := head
      rw [List.foldl_cons, inductionHypothesis, eval_cons]
      dsimp only
      rw [evalSum_addMultiple, UInt8.add_assoc]

/-- The canonical term of a form has the value of the form. -/
@[simp] theorem eval_toTerm (assignment : Assignment) (form : LinearForm) :
    form.toTerm.eval assignment = form.eval assignment := by
  obtain ⟨coefficients, constant⟩ := form
  unfold toTerm
  rw [eval_addOffset, evalSum_foldl_addMultiple,
    eval_eq_add_constant assignment coefficients constant]
  simp [evalSum]

end LinearForm

namespace Term

/-- Simplifying a term keeps its value. -/
@[simp] theorem eval_simplify (assignment : Assignment) (term : Term) :
    term.simplify.eval assignment = term.eval assignment := by
  unfold simplify
  rw [LinearForm.eval_toTerm, LinearForm.eval_ofTerm]

end Term

namespace Value

/-- Making a value canonical keeps the byte that it stands for. -/
@[simp] theorem eval_canonicalize (assignment : Assignment) (value : Value) :
    value.canonicalize.eval assignment = value.eval assignment := by
  cases value with
  | concrete byte => rfl
  | symbolic term =>
      have kept := Term.eval_simplify assignment term
      unfold canonicalize
      dsimp only
      split
      · rename_i byte simplified
        rw [simplified] at kept
        exact kept
      · exact kept

/-- A test for zero that is decided says whether the byte is zero. -/
theorem eval_eq_zero_of_zeroTest
    {value : Value}
    (assignment : Assignment)
    (tested : value.zeroTest = .zero) :
    value.eval assignment = 0 := by
  have kept := eval_canonicalize assignment value
  unfold zeroTest at tested
  split at tested
  · rename_i byte canonical
    rw [canonical, eval_concrete] at kept
    unfold testByte at tested
    split at tested
    · rename_i byteZero
      rw [← kept, byteZero]
    · cases tested
  · cases tested

theorem eval_ne_zero_of_zeroTest
    {value : Value}
    (assignment : Assignment)
    (tested : value.zeroTest = .nonZero) :
    value.eval assignment ≠ 0 := by
  have kept := eval_canonicalize assignment value
  unfold zeroTest at tested
  split at tested
  · rename_i byte canonical
    rw [canonical, eval_concrete] at kept
    unfold testByte at tested
    split at tested
    · cases tested
    · rename_i byteNonZero
      rwa [← kept]
  · cases tested

/-- A test for zero that is left open gives the condition for the byte to be
zero. -/
theorem holds_of_zeroTest
    {value : Value}
    {whenZero : Predicate}
    (assignment : Assignment)
    (tested : value.zeroTest = .undetermined whenZero) :
    whenZero.holds assignment = true ↔ value.eval assignment = 0 := by
  have kept := eval_canonicalize assignment value
  unfold zeroTest at tested
  split at tested
  · unfold testByte at tested
    split at tested <;> cases tested
  · rename_i simplified canonical
    cases tested
    rw [canonical, eval_symbolic] at kept
    simp [Predicate.holds, Predicate.accepts, Predicate.term, kept]

end Value
end SymbolicTape
