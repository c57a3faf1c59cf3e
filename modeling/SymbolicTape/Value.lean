import SymbolicTape.Predicate

/-!
# Cell values

A cell holds a known byte or a term over the unknown input.  Arithmetic keeps
known values known and symbolic values symbolic; only making a value canonical
turns a symbolic value whose unknown bytes cancel out into a known one.
-/

namespace SymbolicTape

/-- The contents of a cell. -/
inductive Value
  /-- A known byte. -/
  | concrete (byte : UInt8)
  /-- A byte that may depend on the input. -/
  | symbolic (term : Term)
  deriving DecidableEq

/-- What is known about whether a value is zero. -/
inductive ZeroTest
  | zero
  | nonZero
  /-- It depends on the input, and the predicate says how. -/
  | undetermined (whenZero : Predicate)
  deriving DecidableEq

namespace Value

/-- The value that every cell starts with. -/
def zero : Value := .concrete 0

instance : Inhabited Value := ⟨zero⟩

/-- The value of a named input byte. -/
def input (name : String) : Value := .symbolic (.symbol name)

/-- The byte that a value stands for under an assignment. -/
def eval (assignment : Assignment) : Value -> UInt8
  | .concrete byte => byte
  | .symbolic term => term.eval assignment

@[simp] theorem eval_concrete (assignment : Assignment) (byte : UInt8) :
    (concrete byte).eval assignment = byte := rfl

@[simp] theorem eval_symbolic (assignment : Assignment) (term : Term) :
    (symbolic term).eval assignment = term.eval assignment := rfl

/-- Add a byte, modulo 256. -/
def add (delta : UInt8) : Value -> Value
  | .concrete byte => .concrete (byte + delta)
  | .symbolic term => .symbolic (.add term (.constant delta))

/-- Subtract a byte, modulo 256. -/
def sub (delta : UInt8) : Value -> Value
  | .concrete byte => .concrete (byte - delta)
  | .symbolic term => .symbolic (.sub term (.constant delta))

@[simp] theorem eval_add
    (assignment : Assignment)
    (delta : UInt8)
    (value : Value) :
    (value.add delta).eval assignment = value.eval assignment + delta := by
  cases value <;> rfl

@[simp] theorem eval_sub
    (assignment : Assignment)
    (delta : UInt8)
    (value : Value) :
    (value.sub delta).eval assignment = value.eval assignment - delta := by
  cases value <;> rfl

/-- Simplify the term of a symbolic value.  The value becomes known if the term
does not depend on any unknown byte. -/
def canonicalize : Value -> Value
  | .concrete byte => .concrete byte
  | .symbolic term =>
      match term.simplify with
      | .constant byte => .concrete byte
      | simplified => .symbolic simplified

/-- Test a known byte for zero. -/
def testByte (byte : UInt8) : ZeroTest :=
  if byte = 0 then .zero else .nonZero

/-- Test a value for zero. -/
def zeroTest (value : Value) : ZeroTest :=
  match value.canonicalize with
  | .concrete byte => testByte byte
  | .symbolic simplified => .undetermined (.isZero simplified)

/-- The byte of a known value. -/
def concrete? : Value -> Option UInt8
  | .concrete byte => some byte
  | .symbolic _ => none

/-- Whether the value is kept as a term. -/
def isSymbolic : Value -> Bool
  | .concrete _ => false
  | .symbolic _ => true

/-- The value as a term. -/
def toTerm : Value -> Term
  | .concrete byte => .constant byte
  | .symbolic term => term

/-- A known byte in decimal, or a term in braces. -/
def render : Value -> String
  | .concrete byte => toString byte.toNat
  | .symbolic term => "\x7b" ++ term.render ++ "\x7d"

end Value
end SymbolicTape
