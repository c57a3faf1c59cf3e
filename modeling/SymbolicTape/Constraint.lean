import SymbolicTape.Predicate

/-!
# Path constraints

A path constraint is a conjunction of predicates, one for each branch along a
path.  It only ever grows.  The newest clause is kept first, so that the two
sides of a branch share all clauses before it.
-/

namespace SymbolicTape

/-- A conjunction of predicates. -/
structure Constraint where
  /-- The clauses, newest first. -/
  newestFirst : List Predicate := []
  deriving DecidableEq, Inhabited

namespace Constraint

/-- The conjunction without clauses, which always holds. -/
def trivial : Constraint := {}

/-- The conjunction with one more clause. -/
def and (constraint : Constraint) (clause : Predicate) : Constraint :=
  ⟨clause :: constraint.newestFirst⟩

/-- The clauses in the order in which they were added. -/
def clauses (constraint : Constraint) : List Predicate :=
  constraint.newestFirst.reverse

@[simp] theorem clauses_trivial : trivial.clauses = [] := rfl

@[simp] theorem clauses_and (constraint : Constraint) (clause : Predicate) :
    (constraint.and clause).clauses = constraint.clauses ++ [clause] := by
  simp [clauses, and]

theorem clauses_inj {constraint other : Constraint} :
    constraint.clauses = other.clauses ↔ constraint = other := by
  unfold clauses
  rw [List.reverse_inj, Constraint.mk.injEq]

/-- The clause that was added last. -/
def newest? (constraint : Constraint) : Option Predicate :=
  constraint.newestFirst.head?

/-- The number of clauses. -/
def length (constraint : Constraint) : Nat := constraint.newestFirst.length

/-- Whether there are no clauses. -/
def isEmpty (constraint : Constraint) : Bool := constraint.newestFirst.isEmpty

theorem isEmpty_eq (constraint : Constraint) :
    constraint.isEmpty = constraint.clauses.isEmpty := by
  simp [isEmpty, clauses]

/-- Whether all clauses hold under an assignment. -/
def holds (assignment : Assignment) (constraint : Constraint) : Bool :=
  constraint.clauses.all fun clause => clause.holds assignment

/-- Whether another constraint was obtained by adding clauses to this one. -/
def isExtendedBy (constraint other : Constraint) : Bool :=
  constraint.clauses.isPrefixOf other.clauses

/-- The names that occur in the clauses, increasing and each once. -/
def names (constraint : Constraint) : List String :=
  constraint.clauses.foldl (fun names clause => clause.term.collectNames names)
    []

/-- The clauses joined by `&&`, or `true` if there are none. -/
def render (constraint : Constraint) : String :=
  if constraint.isEmpty then
    "true"
  else
    " && ".intercalate (constraint.clauses.map Predicate.render)

end Constraint
end SymbolicTape
