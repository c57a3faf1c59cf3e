/-!
# Hexadecimal digits

Numbers are written with a fixed count of lower-case hexadecimal digits, most
significant digit first, and read back from digits of either case.  Program
locations, byte literals and identifiers all use this one form.
-/

namespace SymbolicTape
namespace Text
namespace Hexadecimal

/-- The last `width` hexadecimal digits of a number, most significant first. -/
def digits : (width number : Nat) -> List Char
  | 0, _ => []
  | width + 1, number =>
      digits width (number / 16) ++ [Nat.digitChar (number % 16)]

@[simp] theorem digits_zero (number : Nat) : digits 0 number = [] := rfl

@[simp] theorem length_digits (width number : Nat) :
    (digits width number).length = width := by
  induction width generalizing number with
  | zero => rfl
  | succ width inductionHypothesis => simp [digits, inductionHypothesis]

/-- A number written with exactly `width` digits. -/
def render (width number : Nat) : String :=
  String.ofList (digits width number)

/-- The value of one hexadecimal digit of either case. -/
def digitValue? (digit : Char) : Option Nat :=
  if '0' ≤ digit ∧ digit ≤ '9' then
    some (digit.toNat - '0'.toNat)
  else if 'a' ≤ digit ∧ digit ≤ 'f' then
    some (digit.toNat - 'a'.toNat + 10)
  else if 'A' ≤ digit ∧ digit ≤ 'F' then
    some (digit.toNat - 'A'.toNat + 10)
  else
    none

/-- Read digits after a number that was read already. -/
def valueFrom? (number : Nat) : List Char -> Option Nat
  | [] => some number
  | digit :: rest => do
      let value <- digitValue? digit
      valueFrom? (16 * number + value) rest

/-- The number that a list of hexadecimal digits stands for. -/
def value? (text : List Char) : Option Nat :=
  valueFrom? 0 text

end Hexadecimal
end Text
end SymbolicTape
