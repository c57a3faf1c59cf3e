import SymbolicTape.Term

/-!
# Linear forms and canonical terms

Every term is a linear function of its unknown bytes modulo 256.  Its linear
form lists the coefficients that are not zero, by increasing name, and the
constant offset.  A canonical term is rebuilt from the form, so that terms of
the same linear function have the same canonical term.
-/

namespace SymbolicTape

/-- A linear function of named bytes, modulo 256. -/
structure LinearForm where
  /-- The coefficients that are not zero, by increasing name. -/
  coefficients : List (String × UInt8) := []
  /-- The value where all unknown bytes are zero. -/
  constant : UInt8 := 0
  deriving DecidableEq

namespace LinearForm

/-- Add to the coefficient of a name.  A coefficient that becomes zero is
dropped. -/
def addCoefficient
    (name : String)
    (amount : UInt8) :
    List (String × UInt8) -> List (String × UInt8)
  | [] => if amount = 0 then [] else [(name, amount)]
  | (other, coefficient) :: rest =>
      if name < other then
        if amount = 0 then
          (other, coefficient) :: rest
        else
          (name, amount) :: (other, coefficient) :: rest
      else if other < name then
        (other, coefficient) :: addCoefficient name amount rest
      else if coefficient + amount = 0 then
        rest
      else
        (other, coefficient + amount) :: rest

/-- Add a multiple of a term to a form. -/
def accumulate : Term -> (scale : UInt8) -> LinearForm -> LinearForm
  | .constant value, scale, form =>
      { form with constant := form.constant + value * scale }
  | .symbol name, scale, form =>
      { form with coefficients := addCoefficient name scale form.coefficients }
  | .add left right, scale, form =>
      accumulate right scale (accumulate left scale form)
  | .sub left right, scale, form =>
      accumulate right (-scale) (accumulate left scale form)

/-- The linear form of a term. -/
def ofTerm (term : Term) : LinearForm := accumulate term 1 {}

/-- Whether no unknown byte matters. -/
def isConstant (form : LinearForm) : Bool := form.coefficients.isEmpty

/-- The name and the coefficient of the only unknown byte that matters. -/
def single? (form : LinearForm) : Option (String × UInt8) :=
  match form.coefficients with
  | [single] => some single
  | _ => none

/-- The value of a form under an assignment. -/
def eval (assignment : Assignment) (form : LinearForm) : UInt8 :=
  form.coefficients.foldr
    (fun (name, coefficient) sum => coefficient * assignment name + sum)
    form.constant

/-- Add an unknown byte to a sum, `none` being the empty sum. -/
def addSymbol (name : String) : Option Term -> Option Term
  | none => some (.symbol name)
  | some sum => some (.add sum (.symbol name))

/-- Subtract an unknown byte from a sum, `none` being the empty sum. -/
def subSymbol (name : String) : Option Term -> Option Term
  | none => some (.sub (.constant 0) (.symbol name))
  | some sum => some (.sub sum (.symbol name))

/-- Add a multiple of an unknown byte to a sum.  A coefficient up to 128 is
written by repeated addition, a larger one by repeated subtraction. -/
def addMultiple
    (name : String)
    (coefficient : UInt8)
    (sum : Option Term) : Option Term :=
  if coefficient ≤ 128 then
    Nat.repeat (addSymbol name) coefficient.toNat sum
  else
    Nat.repeat (subSymbol name) (-coefficient).toNat sum

/-- Add the constant offset to a sum of unknown bytes.  An offset up to 128 is
added and a larger one is subtracted. -/
def addOffset (offset : UInt8) : Option Term -> Term
  | none => .constant offset
  | some sum =>
      if offset = 0 then
        sum
      else if offset ≤ 128 then
        .add sum (.constant offset)
      else
        .sub sum (.constant (-offset))

/-- The canonical term of a form. -/
def toTerm (form : LinearForm) : Term :=
  addOffset form.constant
    (form.coefficients.foldl
      (fun sum (name, coefficient) => addMultiple name coefficient sum) none)

end LinearForm

namespace Term

/-- The canonical term of the same linear function. -/
def simplify (term : Term) : Term := (LinearForm.ofTerm term).toTerm

end Term
end SymbolicTape
