/-!
# Symbolic bytes

A term describes an unknown byte.  It is built from known bytes and named
unknown ones by addition and subtraction modulo 256.  Building a term never
simplifies it.

The meaning of a term is its value under an assignment of bytes to names.
-/

namespace SymbolicTape

/-- A choice of one byte for every name. -/
abbrev Assignment := String -> UInt8

/-- A description of an unknown byte. -/
inductive Term
  /-- A known byte. -/
  | constant (value : UInt8)
  /-- The unknown byte of a name. -/
  | symbol (name : String)
  /-- The sum of two bytes. -/
  | add (left right : Term)
  /-- The difference of two bytes. -/
  | sub (left right : Term)
  deriving DecidableEq, Inhabited

namespace Term

/-- The value of a term under an assignment. -/
def eval (assignment : Assignment) : Term -> UInt8
  | .constant value => value
  | .symbol name => assignment name
  | .add left right => left.eval assignment + right.eval assignment
  | .sub left right => left.eval assignment - right.eval assignment

@[simp] theorem eval_constant (assignment : Assignment) (value : UInt8) :
    (constant value).eval assignment = value := rfl

@[simp] theorem eval_symbol (assignment : Assignment) (name : String) :
    (symbol name).eval assignment = assignment name := rfl

@[simp] theorem eval_add (assignment : Assignment) (left right : Term) :
    (add left right).eval assignment =
      left.eval assignment + right.eval assignment := rfl

@[simp] theorem eval_sub (assignment : Assignment) (left right : Term) :
    (sub left right).eval assignment =
      left.eval assignment - right.eval assignment := rfl

/-- The byte of a term that is written as a constant. -/
def constant? : Term -> Option UInt8
  | .constant value => some value
  | _ => none

/-- Insert a name into an increasing list of names, unless it is there. -/
def insertName (name : String) : List String -> List String
  | [] => [name]
  | other :: rest =>
      if name < other then
        name :: other :: rest
      else if other < name then
        other :: insertName name rest
      else
        other :: rest

/-- Add the names that occur in a term to an increasing list of names. -/
def collectNames : Term -> List String -> List String
  | .constant _, names => names
  | .symbol name, names => insertName name names
  | .add left right, names => right.collectNames (left.collectNames names)
  | .sub left right, names => right.collectNames (left.collectNames names)

/-- The names that occur in a term, increasing and each once. -/
def names (term : Term) : List String := term.collectNames []

/-- The text of a term inside another one: sums and differences stand in
parentheses. -/
def renderNested : Term -> String
  | .constant value => toString value.toNat
  | .symbol name => name
  | .add left right =>
      "(" ++ left.renderNested ++ " + " ++ right.renderNested ++ ")"
  | .sub left right =>
      "(" ++ left.renderNested ++ " - " ++ right.renderNested ++ ")"

/-- The text of a term. -/
def render : Term -> String
  | .constant value => toString value.toNat
  | .symbol name => name
  | .add left right => left.renderNested ++ " + " ++ right.renderNested
  | .sub left right => left.renderNested ++ " - " ++ right.renderNested

end Term
end SymbolicTape
