import Mathlib.Data.List.Forall2
import SymbolicTape.Constraint.SmtLib
import SymbolicTape.Proofs.Freshness
import SymbolicTape.Proofs.Names

/-!
# SMT-LIB scripts can be read back

A script is a row of nested expressions, each of which is a command.  It is read
in two passes.  The first is a reader of nested expressions, which takes a text
character by character and keeps the lists that are still open on a stack.  The
second says what an expression means as a term, as a predicate or as a command.

The script of a constraint is read back as the commands that it was written for,
so that nothing about the constraint is lost in its script.
-/

namespace SymbolicTape

namespace Text
namespace Hexadecimal

/-! ## Hexadecimal digits -/

theorem digitValue?_digitChar
    {digit : Nat}
    (isDigit : digit < 16) :
    digitValue? (Nat.digitChar digit) = some digit := by
  revert digit
  decide

theorem valueFrom?_append (number : Nat) (first second : List Char) :
    valueFrom? number (first ++ second) =
      (valueFrom? number first).bind (valueFrom? · second) := by
  induction first generalizing number with
  | nil => rfl
  | cons digit rest inductionHypothesis =>
      rw [List.cons_append, valueFrom?, valueFrom?]
      cases digitValue? digit with
      | none => rfl
      | some value => exact inductionHypothesis _

theorem valueFrom?_digits (start width number : Nat) :
    valueFrom? start (digits width number) =
      some (start * 16 ^ width + number % 16 ^ width) := by
  induction width generalizing number with
  | zero => simp [digits, valueFrom?, Nat.mod_one]
  | succ width inductionHypothesis =>
      have lastDigit : digitValue? (Nat.digitChar (number % 16)) =
          some (number % 16) :=
        digitValue?_digitChar (Nat.mod_lt number (by decide))
      have split_eq : number % 16 ^ (width + 1) =
          16 * (number / 16 % 16 ^ width) + number % 16 := by
        rw [Nat.pow_succ', Nat.mod_mul, Nat.add_comm]
      rw [digits, valueFrom?_append, inductionHypothesis, Option.bind_some,
        valueFrom?, lastDigit, split_eq]
      simp only [Option.bind_eq_bind, Option.bind_some, valueFrom?,
        Option.some.injEq]
      rw [Nat.mul_add, Nat.add_assoc, Nat.pow_succ', Nat.mul_left_comm]

/-- A number that is written with enough digits is read back. -/
theorem value?_digits
    {width number : Nat}
    (fits : number < 16 ^ width) :
    value? (digits width number) = some number := by
  rw [value?, valueFrom?_digits, Nat.zero_mul, Nat.zero_add,
    Nat.mod_eq_of_lt fits]

end Hexadecimal
end Text

namespace SmtLib

/-! ## The reader of nested expressions -/

/-- A nested expression. -/
inductive Expression
  /-- A word without blanks and parentheses. -/
  | atom (text : String)
  /-- Expressions in parentheses. -/
  | list (items : List Expression)

/-- What has been read of a text. -/
structure Reader where
  /-- The expressions of the open lists around the current one, innermost list
  first and newest expression first. -/
  outer : List (List Expression) := []
  /-- The expressions of the current list, newest first. -/
  items : List Expression := []
  /-- The characters of the current word, newest first. -/
  word : List Char := []

namespace Reader

/-- The current word, if there is one, is complete. -/
def endWord (reader : Reader) : Reader :=
  if reader.word.isEmpty then
    reader
  else
    { reader with
      items := .atom (String.ofList reader.word.reverse) :: reader.items
      word := [] }

/-- Read one more character. -/
def next (reader : Reader) (character : Char) : Option Reader :=
  if character = '(' then
    let ⟨outer, items, _⟩ := reader.endWord
    some { outer := items :: outer }
  else if character = ')' then
    match reader.endWord with
    | ⟨[], _, _⟩ => none
    | ⟨items :: outer, inner, _⟩ =>
        some { outer := outer, items := .list inner.reverse :: items }
  else if character.isWhitespace then
    some reader.endWord
  else
    some { reader with word := character :: reader.word }

end Reader

/-- The nested expressions of a text. -/
def readExpressions (text : String) : Option (List Expression) := do
  let reader <- text.toList.foldlM Reader.next {}
  let reader := reader.endWord
  if reader.outer.isEmpty then
    return reader.items.reverse
  else
    none

/-- Reading a text adds expressions to whatever was read before, except that the
last word may still go on. -/
def Reads (text : String) (expressions : List Expression) : Prop :=
  ∀ outer items, ∃ reader : Reader,
    text.toList.foldlM Reader.next ⟨outer, items, []⟩ = some reader ∧
      reader.endWord = ⟨outer, expressions.reverse ++ items, []⟩

/-- Characters that make up words. -/
def isPlain (character : Char) : Bool :=
  character != '(' && character != ')' && !character.isWhitespace

/-- Texts that are words. -/
def isWord (text : String) : Bool :=
  !text.toList.isEmpty && text.toList.all isPlain

theorem next_of_isPlain
    {character : Char}
    (plain : isPlain character = true)
    (reader : Reader) :
    reader.next character =
      some { reader with word := character :: reader.word } := by
  simp only [isPlain, Bool.and_eq_true, bne_iff_ne, Bool.not_eq_true'] at plain
  simp [Reader.next, plain]

/-- The characters of a word are collected. -/
theorem foldlM_next_of_isPlain
    {characters : List Char}
    (plain : ∀ character ∈ characters, isPlain character = true)
    (reader : Reader) :
    characters.foldlM Reader.next reader =
      some { reader with word := characters.reverse ++ reader.word } := by
  induction characters generalizing reader with
  | nil => rfl
  | cons character rest inductionHypothesis =>
      obtain ⟨isPlain, restPlain⟩ := List.forall_mem_cons.mp plain
      rw [List.foldlM_cons, next_of_isPlain isPlain]
      refine (inductionHypothesis restPlain _).trans ?_
      simp

/-- A word is read as an atom. -/
theorem reads_word
    {word : String}
    (wellFormed : isWord word = true) :
    Reads word [.atom word] := by
  simp only [isWord, Bool.and_eq_true, Bool.not_eq_true',
    List.isEmpty_eq_false_iff, List.all_eq_true] at wellFormed
  obtain ⟨nonempty, plain⟩ := wellFormed
  intro outer items
  refine ⟨_, foldlM_next_of_isPlain plain _, ?_⟩
  simp [Reader.endWord, nonempty]

/-- What is separated by a blank is read one after the other. -/
theorem Reads.separated
    {first blank second : String}
    {firstItems secondItems : List Expression}
    (reads : Reads first firstItems)
    (isBlank : blank = " " ∨ blank = "\n")
    (readsSecond : Reads second secondItems) :
    Reads (first ++ blank ++ second) (firstItems ++ secondItems) := by
  intro outer items
  obtain ⟨reader, read_eq, ended_eq⟩ := reads outer items
  obtain ⟨last, last_eq, lastEnded_eq⟩ :=
    readsSecond outer (firstItems.reverse ++ items)
  have blank_eq : blank.toList.foldlM Reader.next reader =
      some reader.endWord := by
    rcases isBlank with rfl | rfl <;> rfl
  refine ⟨last, ?_, ?_⟩
  · rw [String.toList_append, String.toList_append, List.foldlM_append,
      List.foldlM_append, read_eq]
    simp only [Option.bind_eq_bind, Option.bind_some]
    rw [blank_eq, Option.bind_some, ended_eq]
    exact last_eq
  · rw [lastEnded_eq]
    simp

/-- What stands in parentheses is read as a list. -/
theorem Reads.parenthesized
    {text : String}
    {expressions : List Expression}
    (reads : Reads text expressions) :
    Reads ("(" ++ text ++ ")") [.list expressions] := by
  intro outer items
  obtain ⟨reader, read_eq, ended_eq⟩ := reads (items :: outer) []
  have closed : reader.next ')' =
      some ⟨outer, .list expressions :: items, []⟩ := by
    simp [Reader.next, ended_eq]
  refine ⟨⟨outer, .list expressions :: items, []⟩, ?_, rfl⟩
  rw [String.toList_append, String.toList_append, List.foldlM_append,
    List.foldlM_append]
  have opened : "(".toList.foldlM Reader.next ⟨outer, items, []⟩ =
      some ⟨items :: outer, [], []⟩ := rfl
  simp only [Option.bind_eq_bind]
  rw [opened, Option.bind_some, read_eq, Option.bind_some]
  exact congrArg (Option.bind · some) closed

/-- Lines are read one after the other. -/
theorem reads_intercalate
    {lines : List String}
    {expressions : List Expression}
    (reads : List.Forall₂ (fun line expression => Reads line [expression]) lines
      expressions)
    (nonempty : lines ≠ []) :
    Reads ("\n".intercalate lines) expressions := by
  induction reads with
  | nil => exact absurd rfl nonempty
  | @cons line expression lines expressions first rest inductionHypothesis =>
      by_cases last : lines = []
      · subst last
        cases rest
        rwa [String.intercalate_singleton]
      · rw [String.intercalate_cons_of_ne_nil last]
        exact first.separated (.inr rfl) (inductionHypothesis last)

/-- A text that is read has no other expressions. -/
theorem Reads.readExpressions
    {text : String}
    {expressions : List Expression}
    (reads : Reads text expressions) :
    readExpressions text = some expressions := by
  obtain ⟨reader, read_eq, ended_eq⟩ := reads [] []
  unfold SmtLib.readExpressions
  rw [read_eq, Option.bind_eq_bind, Option.bind_some, ended_eq]
  simp

/-! ## What expressions mean -/

namespace Expression

/-- The term that an expression stands for: a byte in two hexadecimal digits, a
name, a sum or a difference. -/
def term? : Expression -> Option Term
  | .atom text =>
      match text.toList with
      | ['#', 'x', high, low] =>
          (Text.Hexadecimal.value? [high, low]).map fun value =>
            .constant (UInt8.ofNat value)
      | '#' :: _ => none
      | _ => some (.symbol text)
  | .list [.atom operator, left, right] => do
      let left <- left.term?
      let right <- right.term?
      if operator = "bvadd" then
        return .add left right
      else if operator = "bvsub" then
        return .sub left right
      else
        none
  | _ => none

/-- The predicate that an expression stands for: a term is compared with
zero. -/
def predicate? : Expression -> Option Predicate
  | .list [.atom "=", term, .atom "#x00"] => term.term?.map .isZero
  | .list [.atom "distinct", term, .atom "#x00"] => term.term?.map .isNonZero
  | _ => none

end Expression

/-- A command of a script. -/
inductive Command
  | setLogic (logic : String)
  /-- Declare an unknown byte. -/
  | declareByte (name : String)
  | assert (predicate : Predicate)
  | checkSat
  deriving DecidableEq

/-- What a command asserts. -/
def Command.asserted? : Command -> Option Predicate
  | .assert predicate => some predicate
  | _ => none

/-- The command that an expression stands for. -/
def Expression.command? : Expression -> Option Command
  | .list [.atom "set-logic", .atom logic] => some (.setLogic logic)
  | .list [.atom "declare-const", .atom name,
      .list [.atom "_", .atom "BitVec", .atom "8"]] =>
      some (.declareByte name)
  | .list [.atom "assert", predicate] => predicate.predicate?.map .assert
  | .list [.atom "check-sat"] => some .checkSat
  | _ => none

/-- The commands of a script. -/
def readScript (text : String) : Option (List Command) := do
  (<- readExpressions text).mapM Expression.command?

/-! ## Writing and reading -/

theorem isPlain_of_le
    {character : Char}
    (late : 48 ≤ character.toNat) :
    isPlain character = true := by
  have differs {other : Char} (early : other.toNat < 48) :
      character ≠ other := by
    rintro rfl
    omega
  simp only [isPlain, Char.isWhitespace, Bool.and_eq_true, bne_iff_ne,
    Bool.not_eq_true', Bool.or_eq_false_iff, decide_eq_false_iff_not]
  exact ⟨⟨differs (by decide), differs (by decide)⟩,
    ⟨⟨differs (by decide), differs (by decide)⟩, differs (by decide)⟩,
    differs (by decide)⟩

/-- The name of an input byte is a word. -/
theorem reads_inputName (index : Nat) :
    Reads (inputName index) [.atom (inputName index)] := by
  apply reads_word
  have nonempty : (inputName index).toList ≠ [] := by
    simp [inputName]
  have plain : ∀ character ∈ (inputName index).toList,
      isPlain character = true := by
    intro character member
    exact isPlain_of_le (toNat_of_mem_inputName member).1
  simpa [isWord, nonempty] using plain

theorem le_toNat_of_mem_digits
    {width number : Nat}
    {digit : Char}
    (member : digit ∈ Text.Hexadecimal.digits width number) :
    48 ≤ digit.toNat := by
  induction width generalizing number with
  | zero => cases member
  | succ width inductionHypothesis =>
      rcases List.mem_append.mp member with earlier | last
      · exact inductionHypothesis earlier
      · rw [List.mem_singleton.mp last]
        have small : number % 16 < 16 := Nat.mod_lt number (by decide)
        generalize number % 16 = value at small
        revert value
        decide

/-- The text of a known byte. -/
def literal (value : UInt8) : String :=
  "#x" ++ Text.Hexadecimal.render 2 value.toNat

theorem toList_literal (value : UInt8) :
    (literal value).toList =
      '#' :: 'x' :: Text.Hexadecimal.digits 2 value.toNat := by
  simp [literal, Text.Hexadecimal.render]

theorem reads_literal (value : UInt8) :
    Reads (literal value) [.atom (literal value)] := by
  apply reads_word
  have plain : ∀ digit ∈ Text.Hexadecimal.digits 2 value.toNat,
      isPlain digit = true := by
    intro digit member
    exact isPlain_of_le (le_toNat_of_mem_digits member)
  have marker : isPlain '#' = true ∧ isPlain 'x' = true := by
    decide
  simpa [isWord, toList_literal, marker] using plain

/-- A known byte is read back. -/
theorem term?_literal (value : UInt8) :
    (Expression.atom (literal value)).term? = some (.constant value) := by
  have digits_eq : Text.Hexadecimal.digits 2 value.toNat =
      [Nat.digitChar (value.toNat / 16 % 16),
        Nat.digitChar (value.toNat % 16)] := rfl
  have read := @Text.Hexadecimal.value?_digits 2 value.toNat value.toNat_lt
  rw [digits_eq] at read
  rw [Expression.term?, toList_literal, digits_eq]
  simp [read]

/-- The name of an input byte is read back. -/
theorem term?_inputName (index : Nat) :
    (Expression.atom (inputName index)).term? =
      some (.symbol (inputName index)) := by
  have text_eq : (inputName index).toList =
      'i' :: ("nput_" ++ toString index).toList := by
    simp [inputName]
  rw [Expression.term?, text_eq]
  simp

/-- The expression that a term is written as. -/
def ofTerm : Term -> Expression
  | .constant value => .atom (literal value)
  | .symbol name => .atom name
  | .add left right => .list [.atom "bvadd", ofTerm left, ofTerm right]
  | .sub left right => .list [.atom "bvsub", ofTerm left, ofTerm right]

/-- A sum or a difference is read as a list of three. -/
theorem reads_operation
    {operator left right : String}
    {leftItem rightItem : Expression}
    (wellFormed : isWord operator = true)
    (readsLeft : Reads left [leftItem])
    (readsRight : Reads right [rightItem]) :
    Reads ("(" ++ (operator ++ " " ++ left ++ " " ++ right) ++ ")")
      [.list [.atom operator, leftItem, rightItem]] := by
  have first := (reads_word wellFormed).separated (.inl rfl) readsLeft
  exact (first.separated (.inl rfl) readsRight).parenthesized

/-- The text of a term over the input is read as its expression. -/
theorem reads_term
    {term : Term}
    (namesInputs : term.NamesInputs) :
    Reads term.smtLib [ofTerm term] := by
  induction term with
  | constant value => exact reads_literal value
  | symbol name =>
      obtain ⟨index, rfl⟩ := namesInputs name rfl
      exact reads_inputName index
  | add left right leftHypothesis rightHypothesis =>
      obtain ⟨leftNames, rightNames⟩ := namesInputs.of_add
      have text_eq : (left.add right).smtLib =
          "(" ++ ("bvadd" ++ " " ++ left.smtLib ++ " " ++ right.smtLib)
            ++ ")" := by
        simp [Term.smtLib, ← String.toList_inj]
      rw [text_eq]
      exact reads_operation (by decide)
        (leftHypothesis leftNames) (rightHypothesis rightNames)
  | sub left right leftHypothesis rightHypothesis =>
      obtain ⟨leftNames, rightNames⟩ := namesInputs.of_sub
      have text_eq : (left.sub right).smtLib =
          "(" ++ ("bvsub" ++ " " ++ left.smtLib ++ " " ++ right.smtLib)
            ++ ")" := by
        simp [Term.smtLib, ← String.toList_inj]
      rw [text_eq]
      exact reads_operation (by decide)
        (leftHypothesis leftNames) (rightHypothesis rightNames)

theorem term?_ofTerm
    {term : Term}
    (namesInputs : term.NamesInputs) :
    (ofTerm term).term? = some term := by
  induction term with
  | constant value => exact term?_literal value
  | symbol name =>
      obtain ⟨index, rfl⟩ := namesInputs name rfl
      exact term?_inputName index
  | add left right leftHypothesis rightHypothesis =>
      obtain ⟨leftNames, rightNames⟩ := namesInputs.of_add
      rw [ofTerm, Expression.term?, leftHypothesis leftNames,
        rightHypothesis rightNames]
      rfl
  | sub left right leftHypothesis rightHypothesis =>
      obtain ⟨leftNames, rightNames⟩ := namesInputs.of_sub
      rw [ofTerm, Expression.term?, leftHypothesis leftNames,
        rightHypothesis rightNames]
      rfl

/-- The expression that a predicate is written as. -/
def ofPredicate : Predicate -> Expression
  | .isZero term => .list [.atom "=", ofTerm term, .atom "#x00"]
  | .isNonZero term => .list [.atom "distinct", ofTerm term, .atom "#x00"]

theorem reads_predicate
    {predicate : Predicate}
    (namesInputs : predicate.term.NamesInputs) :
    Reads predicate.smtLib [ofPredicate predicate] := by
  have zero : Reads "#x00" [.atom "#x00"] :=
    reads_word (by decide)
  cases predicate with
  | isZero term =>
      have text_eq : (Predicate.isZero term).smtLib =
          "(" ++ ("=" ++ " " ++ term.smtLib ++ " " ++ "#x00") ++ ")" := by
        simp [Predicate.smtLib, ← String.toList_inj]
      rw [text_eq]
      exact reads_operation (by decide) (reads_term namesInputs)
        zero
  | isNonZero term =>
      have text_eq : (Predicate.isNonZero term).smtLib =
          "(" ++ ("distinct" ++ " " ++ term.smtLib ++ " " ++ "#x00")
            ++ ")" := by
        simp [Predicate.smtLib, ← String.toList_inj]
      rw [text_eq]
      exact reads_operation (by decide) (reads_term namesInputs)
        zero

theorem predicate?_ofPredicate
    {predicate : Predicate}
    (namesInputs : predicate.term.NamesInputs) :
    (ofPredicate predicate).predicate? = some predicate := by
  cases predicate with
  | isZero term =>
      have read : (ofTerm term).term? = some term := term?_ofTerm namesInputs
      rw [ofPredicate, Expression.predicate?, read]
      rfl
  | isNonZero term =>
      have read : (ofTerm term).term? = some term := term?_ofTerm namesInputs
      rw [ofPredicate, Expression.predicate?, read]
      rfl

/-- The expression that a command is written as. -/
def ofCommand : Command -> Expression
  | .setLogic logic => .list [.atom "set-logic", .atom logic]
  | .declareByte name =>
      .list [.atom "declare-const", .atom name,
        .list [.atom "_", .atom "BitVec", .atom "8"]]
  | .assert predicate => .list [.atom "assert", ofPredicate predicate]
  | .checkSat => .list [.atom "check-sat"]

theorem reads_declaration (index : Nat) :
    Reads ("(declare-const " ++ inputName index ++ " (_ BitVec 8))")
      [ofCommand (.declareByte (inputName index))] := by
  have text_eq : "(declare-const " ++ inputName index ++ " (_ BitVec 8))" =
      "(" ++ ("declare-const" ++ " " ++ inputName index ++ " "
        ++ ("(" ++ ("_" ++ " " ++ "BitVec" ++ " " ++ "8") ++ ")"))
        ++ ")" := by
    simp [← String.toList_inj]
  have sort := @reads_operation "_" "BitVec" "8" _ _ (by decide)
    (reads_word (by decide)) (reads_word (by decide))
  rw [text_eq]
  exact reads_operation (by decide) (reads_inputName index) sort

theorem reads_assertion
    {predicate : Predicate}
    (namesInputs : predicate.term.NamesInputs) :
    Reads ("(assert " ++ predicate.smtLib ++ ")")
      [ofCommand (.assert predicate)] := by
  have text_eq : "(assert " ++ predicate.smtLib ++ ")" =
      "(" ++ ("assert" ++ " " ++ predicate.smtLib) ++ ")" := by
    simp [← String.toList_inj]
  have keyword : Reads "assert" [.atom "assert"] :=
    reads_word (by decide)
  rw [text_eq]
  exact (keyword.separated (.inl rfl)
    (reads_predicate namesInputs)).parenthesized

/-- A command whose names are names of input bytes. -/
def Command.NamesInputs : Command -> Prop
  | .declareByte name => ∃ index, name = inputName index
  | .assert predicate => predicate.term.NamesInputs
  | _ => True

theorem command?_ofCommand
    {command : Command}
    (namesInputs : command.NamesInputs) :
    (ofCommand command).command? = some command := by
  cases command with
  | setLogic logic => rfl
  | declareByte name => rfl
  | assert predicate =>
      have read : (ofPredicate predicate).predicate? = some predicate :=
        predicate?_ofPredicate namesInputs
      rw [ofCommand, Expression.command?, read]
      rfl
  | checkSat => rfl

/-- Lines that are read as the expressions of commands make up a script of these
commands. -/
theorem readScript_intercalate
    {lines : List String}
    {commands : List Command}
    (reads : List.Forall₂ (fun line command => Reads line [ofCommand command])
      lines commands)
    (namesInputs : ∀ command ∈ commands, command.NamesInputs)
    (nonempty : lines ≠ []) :
    readScript ("\n".intercalate lines) = some commands := by
  have expressions := (reads_intercalate
    (List.forall₂_map_right_iff.mpr reads) nonempty).readExpressions
  have understood : (commands.map ofCommand).mapM Expression.command? =
      some commands := by
    clear reads expressions
    induction commands with
    | nil => rfl
    | cons command rest inductionHypothesis =>
        obtain ⟨first, later⟩ := List.forall_mem_cons.mp namesInputs
        simp [command?_ofCommand first, inductionHypothesis later]
  unfold readScript
  rw [expressions, Option.bind_eq_bind, Option.bind_some, understood]

end SmtLib

namespace Constraint

open SmtLib

/-- The commands of the script of a constraint. -/
def script (constraint : Constraint) : List Command :=
  [.setLogic "QF_BV"] ++ constraint.names.map .declareByte
    ++ constraint.clauses.map .assert ++ [.checkSat]

section Script

variable {constraint : Constraint}

theorem NamesInputs.exists_of_mem_names
    (namesInputs : constraint.NamesInputs)
    {name : String}
    (member : name ∈ constraint.names) :
    ∃ index, name = inputName index := by
  obtain ⟨clause, isClause, mentions⟩ := mem_names.mp member
  exact namesInputs clause isClause name mentions

theorem NamesInputs.of_mem_script
    (namesInputs : constraint.NamesInputs)
    {command : Command}
    (member : command ∈ constraint.script) :
    command.NamesInputs := by
  simp only [script, List.mem_append, List.mem_map, List.mem_singleton]
    at member
  rcases member with ((rfl | ⟨name, isName, rfl⟩) | ⟨clause, isClause, rfl⟩)
    | rfl
  · trivial
  · exact namesInputs.exists_of_mem_names isName
  · exact namesInputs clause isClause
  · trivial

/-- Every line of a script is read as its command. -/
theorem NamesInputs.reads_smtLibLines
    (namesInputs : constraint.NamesInputs) :
    List.Forall₂ (fun line command => Reads line [ofCommand command])
      constraint.smtLibLines constraint.script := by
  have logic : Reads "(set-logic QF_BV)" [ofCommand (.setLogic "QF_BV")] := by
    have keyword : Reads "set-logic" [.atom "set-logic"] :=
      reads_word (by decide)
    have name : Reads "QF_BV" [.atom "QF_BV"] :=
      reads_word (by decide)
    exact (keyword.separated (.inl rfl) name).parenthesized
  have check : Reads "(check-sat)" [ofCommand .checkSat] := by
    have keyword : Reads "check-sat" [.atom "check-sat"] :=
      reads_word (by decide)
    exact keyword.parenthesized
  unfold smtLibLines script
  refine List.rel_append (List.rel_append (List.rel_append ?_ ?_) ?_) ?_
  · exact .cons logic .nil
  · simp only [List.forall₂_map_left_iff, List.forall₂_map_right_iff]
    apply List.forall₂_same.mpr
    intro name member
    obtain ⟨index, rfl⟩ := namesInputs.exists_of_mem_names member
    exact reads_declaration index
  · simp only [List.forall₂_map_left_iff, List.forall₂_map_right_iff]
    apply List.forall₂_same.mpr
    intro clause member
    exact reads_assertion (namesInputs clause member)
  · exact .cons check .nil

/-- The script of a constraint on the input is read back as its commands. -/
theorem NamesInputs.readScript_smtLib
    (namesInputs : constraint.NamesInputs) :
    readScript constraint.smtLib = some constraint.script :=
  readScript_intercalate namesInputs.reads_smtLibLines
    (fun _ => namesInputs.of_mem_script) (by simp [smtLibLines])

end Script

/-- The assertions of a script are the clauses. -/
theorem filterMap_script (constraint : Constraint) :
    constraint.script.filterMap Command.asserted? = constraint.clauses := by
  have declarations :
      (constraint.names.map Command.declareByte).filterMap Command.asserted? =
        [] := by
    simp [Command.asserted?]
  have assertions :
      (constraint.clauses.map Command.assert).filterMap Command.asserted? =
        constraint.clauses := by
    simp [List.filterMap_map, Function.comp_def, Command.asserted?]
  rw [script, List.filterMap_append, List.filterMap_append,
    List.filterMap_append, declarations, assertions,
    List.filterMap_cons_none rfl, List.filterMap_cons_none rfl]
  simp

/-- Constraints with the same clauses have the same script. -/
theorem smtLib_congr
    {constraint other : Constraint}
    (clauses_eq : constraint.clauses = other.clauses) :
    constraint.smtLib = other.smtLib := by
  simp only [smtLib, smtLibLines, names, clauses_eq]

end Constraint

/-- All constraints that come up when a program is run are about the input. -/
theorem State.Reachable.namesInputs
    {program : Program}
    {policy : OutputPolicy}
    {capacity : Nat}
    {state : State}
    (reachable : State.Reachable program policy capacity state) :
    state.constraint.NamesInputs := by
  intro clause member name mentions
  obtain ⟨index, offset, -, term_eq⟩ :=
    reachable.wellNamed.shaped.clauses clause member
  rw [← Term.mem_names, term_eq, Term.names_shiftedInput] at mentions
  exact ⟨index, List.mem_singleton.mp mentions⟩

/-- The script of a constraint on the input is well formed and says what the
constraint says.  It sets the logic, declares exactly the names that occur in the
clauses, each once and in increasing order of their bytes, asserts the clauses in
order, and asks for a solution.  Read back as a script it has the same
declarations and assertions, so that two such constraints have the same script
exactly if they have the same clauses.  All constraints that come up when a
program is run are of this kind. -/
theorem script_is_faithful :
    (∀ constraint : Constraint, constraint.NamesInputs ->
      ∃ declared : List String,
        declared.Pairwise
          (fun first second => Text.bytes first < Text.bytes second) ∧
        (∀ name, name ∈ declared ↔
          ∃ clause ∈ constraint.clauses, clause.term.Mentions name) ∧
        constraint.smtLib = "\n".intercalate
          (["(set-logic QF_BV)"]
            ++ declared.map
              (fun name => "(declare-const " ++ name ++ " (_ BitVec 8))")
            ++ constraint.clauses.map
              (fun clause => "(assert " ++ clause.smtLib ++ ")")
            ++ ["(check-sat)"]) ∧
        SmtLib.readScript constraint.smtLib = some
          ([.setLogic "QF_BV"] ++ declared.map .declareByte
            ++ constraint.clauses.map .assert ++ [.checkSat])) ∧
    (∀ constraint other : Constraint,
      constraint.NamesInputs -> other.NamesInputs ->
        (constraint.smtLib = other.smtLib ↔
          constraint.clauses = other.clauses)) ∧
    (∀ (program : Program) (policy : OutputPolicy) (capacity : Nat)
        (state : State),
      State.Reachable program policy capacity state ->
        state.constraint.NamesInputs) := by
  refine ⟨?_, ?_, ?_⟩
  · intro constraint namesInputs
    refine ⟨constraint.names, namesInputs.pairwise_bytes, ?_, rfl, ?_⟩
    · intro name
      exact Constraint.mem_names
    · exact namesInputs.readScript_smtLib
  · intro constraint other namesInputs otherNamesInputs
    refine ⟨?_, Constraint.smtLib_congr⟩
    intro same
    have script_eq : constraint.script = other.script := by
      apply Option.some.inj
      rw [← namesInputs.readScript_smtLib, same,
        otherNamesInputs.readScript_smtLib]
    rw [← constraint.filterMap_script, script_eq, other.filterMap_script]
  · intro program policy capacity state reachable
    exact reachable.namesInputs

/-- Three clauses on input bytes whose names are not in the order of their
numbers, and one of which is nested and occurs in two clauses. -/
def nestedClauses : Constraint :=
  .and (.and (.and .trivial
    (.isNonZero (.symbol (inputName 9))))
    (.isZero (.sub (.add (.symbol (inputName 10)) (.constant 255))
      (.sub (.symbol (inputName 9)) (.constant 10)))))
    (.isZero (.symbol (inputName 10)))

theorem script_is_faithful_nestedClauses :
    nestedClauses.NamesInputs ∧
      (∃ declared : List String,
        "input_9" ∈ declared ∧ "input_10" ∈ declared ∧
          SmtLib.readScript nestedClauses.smtLib = some
            ([.setLogic "QF_BV"] ++ declared.map .declareByte
              ++ [.assert (.isNonZero (.symbol "input_9")),
                .assert (.isZero
                  (.sub (.add (.symbol "input_10") (.constant 255))
                    (.sub (.symbol "input_9") (.constant 10)))),
                .assert (.isZero (.symbol "input_10"))]
              ++ [.checkSat])) ∧
      nestedClauses.smtLib ≠ Constraint.trivial.smtLib ∧
      (State.initial 3).constraint.NamesInputs := by
  have clauses_eq : nestedClauses.clauses =
      [.isNonZero (.symbol "input_9"),
        .isZero (.sub (.add (.symbol "input_10") (.constant 255))
          (.sub (.symbol "input_9") (.constant 10))),
        .isZero (.symbol "input_10")] := by
    decide
  have namesInputs : nestedClauses.NamesInputs := by
    intro clause member name mentions
    rw [clauses_eq] at member
    simp only [List.mem_cons, List.not_mem_nil, or_false] at member
    rcases member with rfl | rfl | rfl <;>
      simp only [Predicate.term, Term.Mentions, or_false] at mentions
    · exact ⟨9, mentions.symm⟩
    · rcases mentions with same | same
      · exact ⟨10, same.symm⟩
      · exact ⟨9, same.symm⟩
    · exact ⟨10, mentions.symm⟩
  obtain ⟨scripts, same_iff, reachable⟩ := script_is_faithful
  refine ⟨namesInputs, ?_, ?_, reachable incrementLoop .rejectSymbolic 3 _ .initial⟩
  · obtain ⟨declared, -, mentioned, -, read⟩ :=
      scripts nestedClauses namesInputs
    refine ⟨declared, (mentioned _).mpr ?_, (mentioned _).mpr ?_, ?_⟩
    · exact ⟨.isNonZero (.symbol "input_9"), by simp [clauses_eq], rfl⟩
    · exact ⟨.isZero (.symbol "input_10"), by simp [clauses_eq], rfl⟩
    · rw [read, clauses_eq]
      rfl
  · intro same
    have noClauses := (same_iff nestedClauses Constraint.trivial namesInputs
      (List.forall_mem_nil _)).mp same
    rw [clauses_eq] at noClauses
    cases noClauses

end SymbolicTape
