import SymbolicTape.Term.Linear

/-!
# Zero tests

A predicate says of a term that it is zero, or that it is not.
-/

namespace SymbolicTape

/-- A condition on the value of a term. -/
inductive Predicate
  | isZero (term : Term)
  | isNonZero (term : Term)
  deriving DecidableEq, Inhabited

namespace Predicate

/-- The term that is tested. -/
def term : Predicate -> Term
  | .isZero term => term
  | .isNonZero term => term

/-- The opposite condition on the same term. -/
def negate : Predicate -> Predicate
  | .isZero term => .isNonZero term
  | .isNonZero term => .isZero term

/-- Whether the condition accepts a value of its term. -/
def accepts : Predicate -> UInt8 -> Bool
  | .isZero _, value => value == 0
  | .isNonZero _, value => value != 0

/-- Whether the condition holds under an assignment. -/
def holds (assignment : Assignment) (predicate : Predicate) : Bool :=
  predicate.accepts (predicate.term.eval assignment)

@[simp] theorem term_negate (predicate : Predicate) :
    predicate.negate.term = predicate.term := by
  cases predicate <;> rfl

@[simp] theorem negate_negate (predicate : Predicate) :
    predicate.negate.negate = predicate := by
  cases predicate <;> rfl

/-- The truth of a condition that does not depend on any unknown byte. -/
def truth? (predicate : Predicate) : Option Bool :=
  predicate.term.simplify.constant?.map predicate.accepts

/-- The text of a condition. -/
def render : Predicate -> String
  | .isZero term => term.render ++ " == 0"
  | .isNonZero term => term.render ++ " != 0"

end Predicate
end SymbolicTape
