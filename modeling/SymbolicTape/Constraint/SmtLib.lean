import SymbolicTape.Constraint
import SymbolicTape.Text.Hexadecimal

/-!
# SMT-LIB scripts

A constraint is written as an SMT-LIB 2 script over bit vectors of width eight.
The script declares every name that occurs, asserts every clause in order and
asks whether the assertions can be satisfied together.
-/

namespace SymbolicTape

namespace Term

/-- A term as a bit vector term. -/
def smtLib : Term -> String
  | .constant value => "#x" ++ Text.Hexadecimal.render 2 value.toNat
  | .symbol name => name
  | .add left right => "(bvadd " ++ left.smtLib ++ " " ++ right.smtLib ++ ")"
  | .sub left right => "(bvsub " ++ left.smtLib ++ " " ++ right.smtLib ++ ")"

end Term

namespace Predicate

/-- A predicate as a boolean term. -/
def smtLib : Predicate -> String
  | .isZero term => "(= " ++ term.smtLib ++ " #x00)"
  | .isNonZero term => "(distinct " ++ term.smtLib ++ " #x00)"

end Predicate

namespace Constraint

/-- The lines of the script of a constraint. -/
def smtLibLines (constraint : Constraint) : List String :=
  ["(set-logic QF_BV)"]
    ++ constraint.names.map
      (fun name => "(declare-const " ++ name ++ " (_ BitVec 8))")
    ++ constraint.clauses.map (fun clause => "(assert " ++ clause.smtLib ++ ")")
    ++ ["(check-sat)"]

/-- The script of a constraint. -/
def smtLib (constraint : Constraint) : String :=
  "\n".intercalate constraint.smtLibLines

end Constraint
end SymbolicTape
