import Std.Data.HashMap
import SymbolicTape.Constraint

/-!
# A cheap check for impossible paths

The check understands two kinds of clauses.  A clause without unknown bytes is
decided at once.  A clause on a single unknown byte with an odd coefficient is
solved exactly: the coefficient has an inverse modulo 256, so its term is zero
at one value of the byte, its root, and at no other.  Such a clause pins the byte
to its root or excludes the root.  A constraint is infeasible if a clause is
false, if a byte is pinned to two values or if it has no value left.  Clauses of
any other kind are passed over, so the answer that a constraint is infeasible can
be trusted and the other one says nothing.
-/

namespace SymbolicTape

/-- What the check finds out. -/
inductive Feasibility
  /-- No assignment satisfies the constraint. -/
  | infeasible
  /-- The constraint may be satisfiable. -/
  | unknown
  deriving DecidableEq

namespace Feasibility

/-- Whether the constraint was shown to be impossible. -/
def isInfeasible : Feasibility -> Bool
  | .infeasible => true
  | .unknown => false

end Feasibility

/-- The inverse of a byte modulo 256, looked for among the odd bytes. -/
def inverse? (value : UInt8) : Option UInt8 :=
  ((List.range 128).map fun index => (2 * index + 1).toUInt8).find?
    fun candidate => value * candidate == 1

namespace LinearForm

/-- The name of the only unknown byte and the one value of it at which the form
is zero, if its coefficient can be inverted. -/
def root? (form : LinearForm) : Option (String × UInt8) := do
  let (name, coefficient) <- form.single?
  let inverse <- inverse? coefficient
  return (name, -form.constant * inverse)

end LinearForm

/-- The values that are left to an unknown byte. -/
structure Domain where
  /-- The value that the byte is pinned to, if there is one. -/
  pinned : Option UInt8 := none
  /-- For every value whether it is excluded. -/
  excluded : Vector Bool 256 := Vector.replicate 256 false

namespace Domain

/-- Whether a value is excluded. -/
def excludes (domain : Domain) (value : UInt8) : Bool :=
  have inRange := value.toNat_lt
  domain.excluded[value.toNat]

/-- Pin the byte to a value, which cannot be done if it is pinned to another
one. -/
def pin? (domain : Domain) (value : UInt8) : Option Domain :=
  match domain.pinned with
  | some existing => if existing = value then some domain else none
  | none => some { domain with pinned := some value }

/-- Exclude a value. -/
def exclude (domain : Domain) (value : UInt8) : Domain :=
  { domain with
    excluded := domain.excluded.set value.toNat true value.toNat_lt }

@[simp] theorem excludes_exclude (domain : Domain) (value other : UInt8) :
    (domain.exclude value).excludes other =
      (other == value || domain.excludes other) := by
  by_cases same : other = value
  · subst same
    simp [excludes, exclude]
  · have differ : value.toNat ≠ other.toNat := fun equal =>
      same (UInt8.toNat_inj.mp equal).symm
    simp [excludes, exclude, differ, same]

/-- Whether no value is left. -/
def isEmpty (domain : Domain) : Bool :=
  match domain.pinned with
  | some value => domain.excludes value
  | none => domain.excluded.all id

/-- Keep the values that satisfy a clause with the given root. -/
def narrow? (domain : Domain) (root : UInt8) : Predicate -> Option Domain
  | .isZero _ => domain.pin? root
  | .isNonZero _ => some (domain.exclude root)

end Domain

/-- The domains of the unknown bytes that were met so far. -/
abbrev Domains := Std.HashMap String Domain

namespace Domains

/-- The values that are left to a byte.  One that was not met can have any. -/
def domain (domains : Domains) (name : String) : Domain := domains.getD name {}

/-- Take one more clause into account.  There are no domains if it is false or if
it pins a byte to a second value. -/
def learn? (domains : Domains) (clause : Predicate) : Option Domains :=
  let form := LinearForm.ofTerm clause.term
  if form.isConstant then
    if clause.truth? = some false then none else some domains
  else
    match form.root? with
    | none => some domains
    | some (name, root) =>
        ((domains.domain name).narrow? root clause).map (domains.insert name)

/-- Whether a byte has no value left. -/
def anyEmpty (domains : Domains) : Bool :=
  domains.toList.any fun (_, domain) => domain.isEmpty

end Domains

namespace Constraint

/-- Check whether a constraint can be shown to be impossible.  The clauses are
looked at one after another, up to one that cannot be reconciled with those
before it. -/
def feasibility (constraint : Constraint) : Feasibility :=
  match constraint.clauses.foldlM Domains.learn? ∅ with
  | none => .infeasible
  | some domains => if domains.anyEmpty then .infeasible else .unknown

end Constraint
end SymbolicTape
