import SymbolicTape.Text.Extending
import SymbolicTape.Text.Invisible
import SymbolicTape.Text.Unassigned

/-!
# Quoted text

A name is quoted between double quotes.  A quote and a backslash inside it get
a backslash in front, and the common control characters have short forms.  A
character that could not be told from the text around it, because it has no
visible shape or because it joins the character before it, is written by its
hexadecimal code in braces.
-/

namespace SymbolicTape
namespace Text
namespace Quoted

/-- Whether a character has a visible shape that stands on its own. -/
def isDistinct (character : Char) : Bool :=
  let code := character.toNat
  !(invisible.contains code || extending.contains code
    || unassigned.contains code)

/-- One character as it is written between quotes. -/
def escape (character : Char) : String :=
  match character with
  | '"' => "\\\""
  | '\\' => "\\\\"
  | '\n' => "\\n"
  | '\r' => "\\r"
  | '\t' => "\\t"
  | '\x00' => "\\0"
  | other =>
      if isDistinct other then
        String.singleton other
      else
        "\\u\x7b" ++ String.ofList (Nat.toDigits 16 other.toNat) ++ "\x7d"

/-- A text between quotes. -/
def quote (text : String) : String :=
  "\"" ++ String.join (text.toList.map escape) ++ "\""

end Quoted
end Text
end SymbolicTape
