/-!
# JSON values

The values that reports are written to and read from.  Reading a record accepts
an object with the fields of the record, where further fields do not matter, or
an array with exactly the values of the fields in order.
-/

namespace SymbolicTape

/-- A JSON value. -/
inductive JsonValue
  | null
  | boolean (value : Bool)
  /-- A number written without fraction and exponent. -/
  | integer (value : Int)
  /-- Any other number. -/
  | fractional
  | text (value : String)
  | array (elements : List JsonValue)
  | object (fields : List (String × JsonValue))
  deriving Inhabited

namespace JsonValue

/-- A natural number below a bound. -/
def natBelow? (bound : Nat) : JsonValue -> Option Nat
  | .integer (.ofNat value) => if value < bound then some value else none
  | _ => none

/-- A number that fits into 64 bits without sign. -/
def count? : JsonValue -> Option Nat := natBelow? (Nat.pow 2 64)

/-- A number that fits into 64 bits with sign. -/
def int64? : JsonValue -> Option Int64
  | .integer value =>
      if -Int.pow 2 63 ≤ value ∧ value < Int.pow 2 63 then
        some (.ofInt value)
      else
        none
  | _ => none

/-- A byte. -/
def byte? (value : JsonValue) : Option UInt8 :=
  (value.natBelow? 256).map UInt8.ofNat

/-- A text. -/
def text? : JsonValue -> Option String
  | .text value => some value
  | _ => none

/-- An array, read element by element. -/
def list? (read : JsonValue -> Option α) : JsonValue -> Option (List α)
  | .array elements => elements.mapM read
  | _ => none

/-- A value that may be null. -/
def nullable?
    (read : JsonValue -> Option α) : JsonValue -> Option (Option α)
  | .null => some none
  | value => (read value).map some

/-- The value of a field of an object. -/
def field? (name : String) : JsonValue -> Option JsonValue
  | .object fields => List.lookup name fields
  | _ => none

/-- The values of the fields of a record, `none` for a missing one. -/
def record? (names : List String) :
    JsonValue -> Option (List (Option JsonValue))
  | .object fields => some (names.map fun name => List.lookup name fields)
  | .array elements =>
      if elements.length = names.length then
        some (elements.map some)
      else
        none
  | _ => none

/-- Write a list. -/
def ofList (write : α -> JsonValue) (values : List α) : JsonValue :=
  .array (values.map write)

/-- Write a natural number. -/
def ofNat (value : Nat) : JsonValue := .integer value

/-- Write an optional value. -/
def ofOption (write : α -> JsonValue) : Option α -> JsonValue
  | none => .null
  | some value => write value

end JsonValue
end SymbolicTape
