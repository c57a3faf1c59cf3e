import SymbolicTape.Text.Hexadecimal

/-!
# Identifiers

An identifier is a number of 128 bits.  Its text has 32 hexadecimal digits in
five groups that are set apart by hyphens.  It is read from that text, from the
digits alone, from the text in braces and from the text after `urn:uuid:`, in
small or capital letters.

Where identifiers come from is left open.  A source hands them out one after
another, and where it matters that none of them came twice, this is said.
-/

namespace SymbolicTape

/-- A number that names a path. -/
structure Identifier where
  /-- The number. -/
  value : BitVec 128
  deriving DecidableEq, Hashable, Inhabited

namespace Identifier

/-- The text of an identifier. -/
def render (identifier : Identifier) : String :=
  let digits := Text.Hexadecimal.digits 32 identifier.value.toNat
  let group (start length : Nat) : String :=
    String.ofList ((digits.drop start).take length)
  "-".intercalate [group 0 8, group 8 4, group 12 4, group 16 4, group 20 12]

/-- The first eight digits of an identifier. -/
def clip (identifier : Identifier) : String :=
  String.ofList ((Text.Hexadecimal.digits 32 identifier.value.toNat).take 8)

/-- The digits of a text in five groups, if it has that form. -/
def ungroup? (text : List Char) : Option (List Char) :=
  let hyphenAt (index : Nat) : Bool := text[index]? == some '-'
  let group (start length : Nat) : List Char := (text.drop start).take length
  if text.length = 36 ∧ hyphenAt 8 ∧ hyphenAt 13 ∧ hyphenAt 18 ∧ hyphenAt 23
  then
    some (group 0 8 ++ group 9 4 ++ group 14 4 ++ group 19 4 ++ group 24 12)
  else
    none

/-- The digits of a text in one of the accepted forms. -/
def digits? (text : List Char) : Option (List Char) :=
  let marker := "urn:uuid:".toList
  if text.length = 32 then
    some text
  else if text.length = 36 then
    ungroup? text
  else if text.length = 38 ∧ text.head? = some '\x7b' ∧
      text.getLast? = some '\x7d' then
    ungroup? text.tail.dropLast
  else if text.length = 45 ∧ (text.take 9).map Char.toLower = marker then
    ungroup? (text.drop 9)
  else
    none

/-- The identifier of a text. -/
def parse? (text : String) : Option Identifier := do
  let digits <- digits? text.toList
  let value <- Text.Hexadecimal.value? digits
  return ⟨BitVec.ofNat 128 value⟩

end Identifier

/-- A source of identifiers, some of which have been handed out. -/
structure Names where
  /-- The identifiers, in the order in which they are handed out. -/
  nth : Nat -> Identifier
  /-- How many have been handed out. -/
  count : Nat := 0

namespace Names

/-- The identifier that is handed out next. -/
def next (names : Names) : Identifier := names.nth names.count

/-- The source after so many further identifiers. -/
def skip (names : Names) (further : Nat) : Names :=
  { names with count := names.count + further }

@[simp] theorem skip_zero (names : Names) : names.skip 0 = names := rfl

/-- No identifier has been handed out twice. -/
def Distinct (names : Names) : Prop :=
  ∀ first < names.count, ∀ second < names.count,
    names.nth first = names.nth second -> first = second

/-- The source that counts in the leading digits, so that already those tell its
identifiers apart. -/
def counting (count : Nat) : Names :=
  ⟨fun index => ⟨BitVec.ofNat 128 (index * Nat.pow 2 96)⟩, count⟩

/-- A number stands for the counting source after so many identifiers. -/
instance : Coe Nat Names := ⟨counting⟩

end Names
end SymbolicTape
