import SymbolicTape.Constraint

/-!
# Constraints that share their clauses

A family of constraints grows by adding clauses to its members.  Every addition
gets a serial number of its own, so that two members that hold the same
addition hold all clauses before it in common.  Comparing two members can
therefore stop as soon as it meets one addition in both.
-/

namespace SymbolicTape

/-- A clause with the serial number of its addition. -/
structure SharedClause where
  /-- The number of the addition. -/
  serial : Nat
  /-- The clause that was added. -/
  clause : Predicate

/-- A constraint whose additions are numbered. -/
structure SharedConstraint where
  /-- The clauses, newest first. -/
  newestFirst : List SharedClause := []
  /-- The number of clauses. -/
  length : Nat := 0
  deriving Inhabited

namespace SharedConstraint

/-- The constraint with one more clause, added under a serial number. -/
def and
    (constraint : SharedConstraint)
    (serial : Nat)
    (clause : Predicate) : SharedConstraint :=
  ⟨⟨serial, clause⟩ :: constraint.newestFirst, constraint.length + 1⟩

/-- The constraint without its serial numbers. -/
def toConstraint (constraint : SharedConstraint) : Constraint :=
  ⟨constraint.newestFirst.map SharedClause.clause⟩

/-- Compare two lists of clauses, newest first, up to the first addition that
both hold. -/
def sameClauses : List SharedClause -> List SharedClause -> Bool
  | [], [] => true
  | first :: olderThanFirst, second :: olderThanSecond =>
      first.serial == second.serial
        || (first.clause == second.clause
          && sameClauses olderThanFirst olderThanSecond)
  | _, _ => false

/-- Whether two constraints have the same clauses in the same order. -/
def equals (constraint other : SharedConstraint) : Bool :=
  constraint.length == other.length
    && sameClauses constraint.newestFirst other.newestFirst

/-- Whether another constraint has the clauses of this one and then possibly
more. -/
def isExtendedBy (constraint other : SharedConstraint) : Bool :=
  constraint.length ≤ other.length
    && sameClauses constraint.newestFirst
      (other.newestFirst.drop (other.length - constraint.length))

/-- Whether the newest clauses of two constraints are one addition.  Two
constraints without clauses share them all. -/
def sharesClausesWith (constraint other : SharedConstraint) : Bool :=
  match constraint.newestFirst, other.newestFirst with
  | [], [] => true
  | first :: _, second :: _ => first.serial == second.serial
  | _, _ => false

end SharedConstraint

/-- Constraints that were built from one another. -/
structure ConstraintFamily where
  /-- The constraints, by the order in which they were built. -/
  members : Array SharedConstraint := #[]
  /-- The serial number of the next addition. -/
  nextSerial : Nat := 0

namespace ConstraintFamily

/-- The member at an index; there are only empty constraints past the last. -/
def member (family : ConstraintFamily) (index : Nat) : SharedConstraint :=
  family.members.getD index {}

/-- Append a constraint without clauses. -/
def create (family : ConstraintFamily) : ConstraintFamily :=
  { family with members := family.members.push {} }

/-- Append a copy of a member. -/
def copy (family : ConstraintFamily) (index : Nat) : ConstraintFamily :=
  { family with members := family.members.push (family.member index) }

/-- Add a clause to the newest member. -/
def addToNewest
    (family : ConstraintFamily)
    (clause : Predicate) : ConstraintFamily :=
  { members := family.members.modify (family.members.size - 1)
      fun member => member.and family.nextSerial clause
    nextSerial := family.nextSerial + 1 }

/-- Append a member that has the clauses of an older one and then the given
ones. -/
def extend
    (family : ConstraintFamily)
    (index : Nat)
    (clauses : List Predicate) : ConstraintFamily :=
  clauses.foldl addToNewest (family.copy index)

end ConstraintFamily
end SymbolicTape
