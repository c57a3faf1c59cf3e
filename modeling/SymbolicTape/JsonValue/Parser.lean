import SymbolicTape.JsonValue
import SymbolicTape.Text.Hexadecimal

/-!
# Reading JSON text

`JsonValue.parse?` reads the text of one JSON value.  Every reader takes a text
and gives what it found at the start together with the rest.

A number counts as an integer if it is written without a fraction and without an
exponent.  A negative zero is none, since no integer differs from zero by its
sign alone.  Of several fields of one name in an object the last one stands.

Values are nested, so that their readers call each other.  They carry a bound on
the number of these calls, and twice the length of the text is always enough.
-/

namespace SymbolicTape
namespace JsonValue

/-- Whether a character may stand between the parts of a value. -/
def isBlank (character : Char) : Bool :=
  character == ' ' || character == '\t' || character == '\n'
    || character == '\r'

/-- The text without the blanks in front. -/
def skipBlanks (text : List Char) : List Char := text.dropWhile isBlank

/-- Read a word that stands for a value. -/
def word? (word : String) (value : JsonValue) (text : List Char) :
    Option (JsonValue × List Char) :=
  if word.toList.isPrefixOf text then
    some (value, text.drop word.length)
  else
    none

/-- Read one decimal digit or more. -/
def decimal? (text : List Char) : Option (List Char × List Char) :=
  match text.takeWhile Char.isDigit with
  | [] => none
  | digits => some (digits, text.dropWhile Char.isDigit)

/-- The number that decimal digits stand for. -/
def decimalValue (digits : List Char) : Nat :=
  digits.foldl (fun value digit => 10 * value + (digit.toNat - '0'.toNat)) 0

/-- Read a sign, if there is one, and say whether it is a minus. -/
def minus (text : List Char) : Bool × List Char :=
  match text with
  | '-' :: rest => (true, rest)
  | _ => (false, text)

/-- Read the digits in front of the point, which do not start with a zero that
could be left out. -/
def whole? (text : List Char) : Option (Nat × List Char) :=
  match decimal? text with
  | some ('0' :: _ :: _, _) => none
  | some (digits, rest) => some (decimalValue digits, rest)
  | none => none

/-- Read a fraction, if there is one, and say whether there was. -/
def fraction? (text : List Char) : Option (Bool × List Char) :=
  match text with
  | '.' :: rest => (decimal? rest).map fun (_, rest) => (true, rest)
  | _ => some (false, text)

/-- Read the digits of an exponent, which may have a sign. -/
def power? (text : List Char) : Option (List Char × List Char) :=
  match text with
  | '+' :: rest => decimal? rest
  | '-' :: rest => decimal? rest
  | _ => decimal? text

/-- Read an exponent, if there is one, and say whether there was. -/
def exponent? (text : List Char) : Option (Bool × List Char) :=
  match text with
  | 'e' :: rest => (power? rest).map fun (_, rest) => (true, rest)
  | 'E' :: rest => (power? rest).map fun (_, rest) => (true, rest)
  | _ => some (false, text)

/-- Read a number. -/
def number? (text : List Char) : Option (JsonValue × List Char) := do
  let (isNegative, text) := minus text
  let (size, text) <- whole? text
  let (hasFraction, text) <- fraction? text
  let (hasExponent, text) <- exponent? text
  if hasFraction || hasExponent || (isNegative && size == 0) then
    return (.fractional, text)
  else
    return (.integer (if isNegative then -size else size), text)

/-- The character that a letter stands for behind a backslash. -/
def unescape? : Char -> Option Char
  | '"' => some '"'
  | '\\' => some '\\'
  | '/' => some '/'
  | 'b' => some '\x08'
  | 'f' => some '\x0c'
  | 'n' => some '\n'
  | 'r' => some '\r'
  | 't' => some '\t'
  | _ => none

/-- Read a unit of 16 bits, written with four hexadecimal digits. -/
def unit? (text : List Char) : Option (Nat × List Char) :=
  let digits := text.take 4
  if digits.length = 4 then
    (Text.Hexadecimal.value? digits).map fun unit => (unit, text.drop 4)
  else
    none

/-- Read the second unit of a character whose first unit is given. -/
def secondUnit? (first : Nat) (text : List Char) : Option (Char × List Char) :=
  match text with
  | '\\' :: 'u' :: rest => do
      let (second, rest) <- unit? rest
      if 0xdc00 ≤ second && second < 0xe000 then
        let code := 0x10000 + (first - 0xd800) * 0x400 + (second - 0xdc00)
        return (Char.ofNat code, rest)
      else
        none
  | _ => none

/-- Read what stands behind a backslash. -/
def escaped? (text : List Char) : Option (Char × List Char) :=
  match text with
  | [] => none
  | 'u' :: rest => do
      let (unit, rest) <- unit? rest
      if 0xd800 ≤ unit && unit < 0xdc00 then
        secondUnit? unit rest
      else if 0xdc00 ≤ unit && unit < 0xe000 then
        none
      else
        return (Char.ofNat unit, rest)
  | letter :: rest => (unescape? letter).map fun character => (character, rest)

/-- Read the characters of a text up to its closing quote. -/
def characters? : (bound : Nat) -> List Char -> Option (List Char × List Char)
  | 0, _ => none
  | _, [] => none
  | _, '"' :: rest => some ([], rest)
  | bound + 1, '\\' :: rest => do
      let (character, rest) <- escaped? rest
      let (characters, rest) <- characters? bound rest
      return (character :: characters, rest)
  | bound + 1, character :: rest =>
      if character < ' ' then
        none
      else do
        let (characters, rest) <- characters? bound rest
        return (character :: characters, rest)

/-- Read a name and the colon behind it. -/
def name? (bound : Nat) (text : List Char) : Option (String × List Char) :=
  match skipBlanks text with
  | '"' :: rest => do
      let (characters, rest) <- characters? bound rest
      match skipBlanks rest with
      | ':' :: rest => return (String.ofList characters, rest)
      | _ => none
  | _ => none

/-- Put a field in front of later ones, unless one of them has its name. -/
def putField (name : String) (value : JsonValue)
    (later : List (String × JsonValue)) : List (String × JsonValue) :=
  if later.any fun field => field.1 == name then
    later
  else
    (name, value) :: later

mutual

/-- Read a value. -/
def value? : (bound : Nat) -> List Char -> Option (JsonValue × List Char)
  | 0, _ => none
  | bound + 1, characters =>
      match skipBlanks characters with
      | 'n' :: rest => word? "null" .null ('n' :: rest)
      | 't' :: rest => word? "true" (.boolean true) ('t' :: rest)
      | 'f' :: rest => word? "false" (.boolean false) ('f' :: rest)
      | '"' :: rest => do
          let (characters, rest) <- characters? bound rest
          return (.text (String.ofList characters), rest)
      | '[' :: rest =>
          match skipBlanks rest with
          | ']' :: rest => some (.array [], rest)
          | rest => do
              let (elements, rest) <- elements? bound rest
              return (.array elements, rest)
      | '\x7b' :: rest =>
          match skipBlanks rest with
          | '\x7d' :: rest => some (.object [], rest)
          | rest => do
              let (fields, rest) <- fields? bound rest
              return (.object fields, rest)
      | rest => number? rest

/-- Read the elements of an array up to its closing bracket. -/
def elements? :
    (bound : Nat) -> List Char -> Option (List JsonValue × List Char)
  | 0, _ => none
  | bound + 1, characters => do
      let (element, rest) <- value? bound characters
      match skipBlanks rest with
      | ',' :: rest => do
          let (later, rest) <- elements? bound rest
          return (element :: later, rest)
      | ']' :: rest => return ([element], rest)
      | _ => none

/-- Read the fields of an object up to its closing brace. -/
def fields? :
    (bound : Nat) -> List Char ->
      Option (List (String × JsonValue) × List Char)
  | 0, _ => none
  | bound + 1, characters => do
      let (name, rest) <- name? bound characters
      let (value, rest) <- value? bound rest
      match skipBlanks rest with
      | ',' :: rest => do
          let (later, rest) <- fields? bound rest
          return (putField name value later, rest)
      | '\x7d' :: rest => return ([(name, value)], rest)
      | _ => none

end

/-- The value that a text stands for. -/
def parse? (text : String) : Option JsonValue := do
  let characters := text.toList
  let (value, rest) <- value? (2 * characters.length + 2) characters
  if (skipBlanks rest).isEmpty then some value else none

end JsonValue
end SymbolicTape
