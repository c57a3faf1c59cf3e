import SymbolicTape.Constraint
import SymbolicTape.Text.Quoted

/-!
# Outlines of constraints

An outline spells out how a constraint is built, with every constructor by
name.  Unlike the plain text of a constraint it is meant for tracing.
-/

namespace SymbolicTape

/-- A constructor with named fields. -/
def outlineFields (name : String) (fields : List (String × String)) : String :=
  name ++ " \x7b "
    ++ ", ".intercalate (fields.map fun (field, text) => field ++ ": " ++ text)
    ++ " \x7d"

namespace Term

/-- The outline of a term. -/
def outline : Term -> String
  | .constant value =>
      outlineFields "Term" [("data", "Constant(" ++ toString value.toNat ++ ")")]
  | .symbol name =>
      outlineFields "Term" [("data", "Variable(" ++ Text.Quoted.quote name ++ ")")]
  | .add left right =>
      outlineFields "Term" [("data",
        outlineFields "Add" [("left", left.outline), ("right", right.outline)])]
  | .sub left right =>
      outlineFields "Term" [("data",
        outlineFields "Sub" [("left", left.outline), ("right", right.outline)])]

end Term

namespace Predicate

/-- The outline of a predicate. -/
def outline : Predicate -> String
  | .isZero term => "IsZero(" ++ term.outline ++ ")"
  | .isNonZero term => "IsNonZero(" ++ term.outline ++ ")"

end Predicate

namespace Constraint

/-- The outlines of the clauses, in the order in which they were added. -/
def outline (constraint : Constraint) : String :=
  "[" ++ ", ".intercalate (constraint.clauses.map Predicate.outline) ++ "]"

end Constraint
end SymbolicTape
