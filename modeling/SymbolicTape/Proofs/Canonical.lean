import Mathlib.Data.List.Sort
import SymbolicTape.Proofs.Linear

/-!
# Canonical terms

The coefficients of a linear form that comes from a term are normal: their names
increase and none of them is zero.  A normal form can be read off its values.
Where all unknown bytes are zero it has the value of its constant, and where all
but one are zero it differs from the constant by a coefficient.  Two terms of
the same values therefore have the same linear form, and with it the same
canonical term.
-/

namespace SymbolicTape
namespace LinearForm

/-! ## Normal coefficients -/

/-- The name of the first entry comes before that of the second. -/
def Precedes (first second : String × UInt8) : Prop := first.1 < second.1

instance : Std.Irrefl Precedes :=
  ⟨fun entry => String.lt_irrefl entry.1⟩

instance : Std.Antisymm Precedes :=
  ⟨fun _ _ before after => absurd after (String.lt_asymm before)⟩

/-- The names increase and no coefficient is zero. -/
structure IsNormal (coefficients : List (String × UInt8)) : Prop where
  increasing : coefficients.Pairwise Precedes
  nonZero : ∀ entry ∈ coefficients, entry.2 ≠ 0

theorem isNormal_nil : IsNormal [] :=
  ⟨List.Pairwise.nil, List.forall_mem_nil _⟩

theorem isNormal_cons
    {name : String}
    {coefficient : UInt8}
    {rest : List (String × UInt8)} :
    IsNormal ((name, coefficient) :: rest) ↔
      (∀ entry ∈ rest, name < entry.1) ∧ coefficient ≠ 0 ∧ IsNormal rest := by
  constructor
  · rintro ⟨increasing, nonZero⟩
    obtain ⟨first, increasing⟩ := List.pairwise_cons.mp increasing
    exact ⟨first, nonZero _ List.mem_cons_self, increasing,
      fun entry member => nonZero entry (List.mem_cons_of_mem _ member)⟩
  · rintro ⟨first, headNonZero, increasing, nonZero⟩
    refine ⟨List.pairwise_cons.mpr ⟨first, increasing⟩, ?_⟩
    intro entry member
    rcases List.mem_cons.mp member with rfl | member
    · exact headNonZero
    · exact nonZero entry member

/-- Adding to the coefficient of a name brings in no other name. -/
theorem lt_of_mem_addCoefficient
    {lower name : String}
    {amount : UInt8}
    {coefficients : List (String × UInt8)}
    (below : lower < name)
    (first : ∀ entry ∈ coefficients, lower < entry.1) :
    ∀ entry ∈ addCoefficient name amount coefficients, lower < entry.1 := by
  fun_induction addCoefficient name amount coefficients with
  | case1 => exact first
  | case2 => exact List.forall_mem_singleton.mpr below
  | case3 => exact first
  | case4 => exact List.forall_mem_cons.mpr ⟨below, first⟩
  | case5 other coefficient rest _ _ inductionHypothesis =>
      obtain ⟨head, tail⟩ := List.forall_mem_cons.mp first
      exact List.forall_mem_cons.mpr ⟨head, inductionHypothesis tail⟩
  | case6 => exact (List.forall_mem_cons.mp first).2
  | case7 =>
      obtain ⟨head, tail⟩ := List.forall_mem_cons.mp first
      exact List.forall_mem_cons.mpr ⟨head, tail⟩

theorem IsNormal.addCoefficient
    {coefficients : List (String × UInt8)}
    (normal : IsNormal coefficients)
    (name : String)
    (amount : UInt8) :
    IsNormal (addCoefficient name amount coefficients) := by
  fun_induction LinearForm.addCoefficient name amount coefficients with
  | case1 => exact normal
  | case2 amountNonZero =>
      exact isNormal_cons.mpr
        ⟨List.forall_mem_nil _, amountNonZero, isNormal_nil⟩
  | case3 => exact normal
  | case4 other coefficient rest before amountNonZero =>
      obtain ⟨first, -, -⟩ := isNormal_cons.mp normal
      have later : ∀ entry ∈ rest, name < entry.1 := fun entry member =>
        String.lt_trans before (first entry member)
      exact isNormal_cons.mpr
        ⟨List.forall_mem_cons.mpr ⟨before, later⟩, amountNonZero, normal⟩
  | case5 other coefficient rest _ after inductionHypothesis =>
      obtain ⟨first, nonZero, restNormal⟩ := isNormal_cons.mp normal
      exact isNormal_cons.mpr ⟨lt_of_mem_addCoefficient after first, nonZero,
        inductionHypothesis restNormal⟩
  | case6 => exact (isNormal_cons.mp normal).2.2
  | case7 other coefficient rest _ _ sumNonZero =>
      obtain ⟨first, -, restNormal⟩ := isNormal_cons.mp normal
      exact isNormal_cons.mpr ⟨first, sumNonZero, restNormal⟩

/-- Accumulating a term keeps the coefficients normal. -/
theorem IsNormal.accumulate
    {form : LinearForm}
    (normal : IsNormal form.coefficients)
    (term : Term)
    (scale : UInt8) :
    IsNormal (accumulate term scale form).coefficients := by
  induction term generalizing scale form with
  | constant value => exact normal
  | symbol name => exact normal.addCoefficient name scale
  | add left right leftHypothesis rightHypothesis =>
      exact rightHypothesis (leftHypothesis normal scale) scale
  | sub left right leftHypothesis rightHypothesis =>
      exact rightHypothesis (leftHypothesis normal scale) (-scale)

theorem isNormal_ofTerm (term : Term) : IsNormal (ofTerm term).coefficients :=
  isNormal_nil.accumulate term 1

/-! ## Reading off a form -/

/-- The assignment of one to a name and zero to all others. -/
def only (name : String) : Assignment := fun other =>
  if other = name then 1 else 0

/-- Where all bytes of a form are zero, its value is the constant. -/
theorem eval_eq_constant
    {assignment : Assignment}
    {coefficients : List (String × UInt8)}
    (zero : ∀ entry ∈ coefficients, assignment entry.1 = 0)
    (constant : UInt8) :
    eval assignment ⟨coefficients, constant⟩ = constant := by
  induction coefficients with
  | nil => rfl
  | cons head rest inductionHypothesis =>
      obtain ⟨name, coefficient⟩ := head
      have headZero := zero _ List.mem_cons_self
      have restZero := inductionHypothesis fun entry member =>
        zero entry (List.mem_cons_of_mem _ member)
      rw [eval_cons, headZero, restZero]
      simp

/-- A coefficient is the value where only its own byte is one. -/
theorem IsNormal.eval_only
    {coefficients : List (String × UInt8)}
    (normal : IsNormal coefficients)
    {name : String}
    {coefficient : UInt8}
    (member : (name, coefficient) ∈ coefficients) :
    eval (only name) ⟨coefficients, 0⟩ = coefficient := by
  induction coefficients with
  | nil => cases member
  | cons head rest inductionHypothesis =>
      obtain ⟨other, first⟩ := head
      obtain ⟨before, -, restNormal⟩ := isNormal_cons.mp normal
      rcases List.mem_cons.mp member with same | member
      · cases same
        have others : ∀ entry ∈ rest, only name entry.1 = 0 := by
          intro entry inRest
          exact if_neg (String.ne_of_lt (before entry inRest)).symm
        rw [eval_cons, eval_eq_constant others]
        simp [only]
      · have different : other ≠ name := String.ne_of_lt (before _ member)
        rw [eval_cons, inductionHypothesis restNormal member]
        simp [only, different]

/-- The entries are the names at which the form has a value other than zero. -/
theorem IsNormal.mem_iff
    {coefficients : List (String × UInt8)}
    (normal : IsNormal coefficients)
    (name : String)
    (coefficient : UInt8) :
    (name, coefficient) ∈ coefficients ↔
      coefficient ≠ 0 ∧
        eval (only name) ⟨coefficients, 0⟩ = coefficient := by
  constructor
  · intro member
    exact ⟨normal.nonZero _ member, normal.eval_only member⟩
  · rintro ⟨nonZero, value_eq⟩
    by_cases occurs : ∃ other, (name, other) ∈ coefficients
    · obtain ⟨other, member⟩ := occurs
      rwa [← value_eq, normal.eval_only member]
    · have zero : ∀ entry ∈ coefficients, only name entry.1 = 0 := by
        rintro ⟨other, first⟩ member
        refine if_neg ?_
        rintro rfl
        exact occurs ⟨first, member⟩
      rw [eval_eq_constant zero] at value_eq
      exact absurd value_eq.symm nonZero

/-- Normal forms of the same values are the same. -/
theorem eq_of_eval_eq
    {first second : LinearForm}
    (firstNormal : IsNormal first.coefficients)
    (secondNormal : IsNormal second.coefficients)
    (values_eq : ∀ assignment, first.eval assignment = second.eval assignment) :
    first = second := by
  obtain ⟨firstCoefficients, firstConstant⟩ := first
  obtain ⟨secondCoefficients, secondConstant⟩ := second
  have constant_eq : firstConstant = secondConstant := by
    have atZero := values_eq fun _ => 0
    rwa [eval_eq_constant fun _ _ => rfl, eval_eq_constant fun _ _ => rfl]
      at atZero
  subst constant_eq
  -- Without the constant, the coefficients are values of the form.
  have linear_eq (assignment : Assignment) :
      eval assignment ⟨firstCoefficients, 0⟩ =
        eval assignment ⟨secondCoefficients, 0⟩ := by
    have shifted := values_eq assignment
    rw [eval_eq_add_constant, eval_eq_add_constant assignment
      secondCoefficients] at shifted
    exact (UInt8.add_left_inj firstConstant).mp shifted
  have coefficients_eq : firstCoefficients = secondCoefficients := by
    refine firstNormal.increasing.eq_of_mem_iff secondNormal.increasing ?_
    rintro ⟨name, coefficient⟩
    rw [firstNormal.mem_iff, secondNormal.mem_iff, linear_eq]
  rw [coefficients_eq]

end LinearForm

namespace Term

open LinearForm

/-- Terms have the same canonical term exactly if they have the same values. -/
theorem simplify_eq_simplify_iff {term other : Term} :
    term.simplify = other.simplify ↔
      ∀ assignment, term.eval assignment = other.eval assignment := by
  constructor
  · intro same assignment
    rw [← eval_simplify, same, eval_simplify]
  · intro values_eq
    have forms_eq : ofTerm term = ofTerm other := by
      refine eq_of_eval_eq (isNormal_ofTerm term) (isNormal_ofTerm other) ?_
      intro assignment
      rw [eval_ofTerm, eval_ofTerm, values_eq]
    unfold simplify
    rw [forms_eq]

@[simp] theorem simplify_constant (byte : UInt8) :
    (constant byte).simplify = constant byte := by
  simp [simplify, ofTerm, accumulate, toTerm, addOffset]

theorem constant?_eq_some_iff {term : Term} {byte : UInt8} :
    term.constant? = some byte ↔ term = constant byte := by
  cases term <;> simp [constant?]

/-- A canonical term is written as a constant exactly if the term is one. -/
theorem constant?_simplify_eq_some_iff {term : Term} {byte : UInt8} :
    term.simplify.constant? = some byte ↔
      ∀ assignment, term.eval assignment = byte := by
  rw [constant?_eq_some_iff]
  constructor
  · intro written assignment
    rw [← eval_simplify, written, eval_constant]
  · intro constantly
    have same : term.simplify = (constant byte).simplify :=
      simplify_eq_simplify_iff.mpr constantly
    rw [same, simplify_constant]

end Term

/-- Simplifying is a sound and complete way to a canonical term: it keeps the
value under every assignment, and it makes two terms equal exactly if they have
the same values.  A simplified term is simple already, and it is written as a
constant exactly if all values of the term are that byte. -/
theorem simplify_is_canonical (term other : Term) :
    (∀ assignment, term.simplify.eval assignment = term.eval assignment) ∧
      (term.simplify = other.simplify ↔
        ∀ assignment, term.eval assignment = other.eval assignment) ∧
      term.simplify.simplify = term.simplify ∧
      ∀ byte, term.simplify.constant? = some byte ↔
        ∀ assignment, term.eval assignment = byte := by
  refine ⟨?_, Term.simplify_eq_simplify_iff, ?_, ?_⟩
  · intro assignment
    exact Term.eval_simplify assignment term
  · rw [Term.simplify_eq_simplify_iff]
    intro assignment
    exact Term.eval_simplify assignment term
  · intro byte
    exact Term.constant?_simplify_eq_some_iff

end SymbolicTape
