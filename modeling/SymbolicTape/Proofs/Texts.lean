import SymbolicTape.Proofs.Budgets
import SymbolicTape.Proofs.ForkTree
import SymbolicTape.Proofs.SmtScripts
import SymbolicTape.Report

/-!
# Texts are unambiguous

The texts of constraints and values are read by the reader of nested
expressions.  What stands in parentheses is one expression, and everything else
is a row of words.  A text determines the row of expressions that it is read as,
so it is enough to tell constraints apart by their rows.

A row is taken apart from the left.  A term that is not nested is one
expression, or an operator between two of them.  A term is followed by a
comparison, and no comparison is an operator, so that the second expression of
the row says which of the two it is.  A comparison with zero is two words, and
then the row ends or the next clause follows.
-/

namespace SymbolicTape

open SmtLib

/-- A text is read in one way only. -/
theorem SmtLib.Reads.unique
    {text : String}
    {items others : List Expression}
    (reads : Reads text items)
    (readsOthers : Reads text others) :
    items = others := by
  apply Option.some.inj
  rw [← reads.readExpressions, readsOthers.readExpressions]

/-! ## Numbers -/

/-- A decimal number is a word. -/
theorem reads_decimal (number : Nat) :
    Reads (toString number) [.atom (toString number)] := by
  apply reads_word
  have text_eq : (toString number).toList = Nat.toDigits 10 number := by
    rw [Nat.toString_eq_repr, Nat.repr_eq_ofList_toDigits,
      String.toList_ofList]
  have plain : ∀ digit ∈ Nat.toDigits 10 number, isPlain digit = true := by
    intro digit member
    have isDigit := Nat.isDigit_of_mem_toDigits (by decide) (by decide) member
    exact isPlain_of_le (Char.isDigit_iff_toNat.mp isDigit).1
  simpa [isWord, text_eq] using plain

/-- A text that begins with a number has a digit as its first character. -/
theorem isDigit_of_toString_eq
    {number : Nat}
    {first : Char}
    {rest : List Char}
    (text_eq : (toString number).toList = first :: rest) :
    first.isDigit = true := by
  rw [Nat.toString_eq_repr, Nat.repr_eq_ofList_toDigits,
    String.toList_ofList] at text_eq
  apply Nat.isDigit_of_mem_toDigits (b := 10) (n := number) (by decide)
    (by decide)
  rw [text_eq]
  exact List.mem_cons_self

theorem toString_ne_inputName (number index : Nat) :
    toString number ≠ inputName index := by
  intro same
  have text_eq : (toString number).toList =
      'i' :: ("nput_" ++ toString index).toList := by
    simp [same, inputName]
  cases isDigit_of_toString_eq text_eq

/-! ## Terms -/

namespace Term

/-- The expression that the nested text of a term is read as. -/
def expression : Term -> Expression
  | .constant value => .atom (toString value.toNat)
  | .symbol name => .atom name
  | .add left right => .list [left.expression, .atom "+", right.expression]
  | .sub left right => .list [left.expression, .atom "-", right.expression]

/-- The row of expressions that the text of a term is read as. -/
def row : Term -> List Expression
  | .add left right => [left.expression, .atom "+", right.expression]
  | .sub left right => [left.expression, .atom "-", right.expression]
  | term => [term.expression]

/-- Two operands with an operator between them are read as a row of three. -/
theorem reads_operands
    (operator : String)
    {left right : String}
    {leftItem rightItem : Expression}
    (wellFormed : isWord operator = true)
    (readsLeft : Reads left [leftItem])
    (readsRight : Reads right [rightItem]) :
    Reads (left ++ (" " ++ operator ++ " ") ++ right)
      [leftItem, .atom operator, rightItem] := by
  have first := readsLeft.separated (.inl rfl) (reads_word wellFormed)
  have whole := first.separated (.inl rfl) readsRight
  simpa [String.append_assoc] using whole

theorem reads_renderNested
    {term : Term}
    (namesInputs : term.NamesInputs) :
    Reads term.renderNested [term.expression] := by
  induction term with
  | constant value => exact reads_decimal value.toNat
  | symbol name =>
      obtain ⟨index, rfl⟩ := namesInputs name rfl
      exact reads_inputName index
  | add left right leftHypothesis rightHypothesis =>
      obtain ⟨leftInputs, rightInputs⟩ := namesInputs.of_add
      have operands := reads_operands "+" (by decide)
        (leftHypothesis leftInputs) (rightHypothesis rightInputs)
      simpa [renderNested, expression, String.append_assoc]
        using operands.parenthesized
  | sub left right leftHypothesis rightHypothesis =>
      obtain ⟨leftInputs, rightInputs⟩ := namesInputs.of_sub
      have operands := reads_operands "-" (by decide)
        (leftHypothesis leftInputs) (rightHypothesis rightInputs)
      simpa [renderNested, expression, String.append_assoc]
        using operands.parenthesized

/-- The text of a term over the input is read as its row. -/
theorem reads_render
    {term : Term}
    (namesInputs : term.NamesInputs) :
    Reads term.render term.row := by
  cases term with
  | constant value =>
      have nested := reads_renderNested namesInputs
      simpa [render, renderNested, row] using nested
  | symbol name =>
      have nested := reads_renderNested namesInputs
      simpa [render, renderNested, row] using nested
  | add left right =>
      obtain ⟨leftInputs, rightInputs⟩ := namesInputs.of_add
      have operands := reads_operands "+" (by decide)
        (reads_renderNested leftInputs) (reads_renderNested rightInputs)
      simpa [render, row] using operands
  | sub left right =>
      obtain ⟨leftInputs, rightInputs⟩ := namesInputs.of_sub
      have operands := reads_operands "-" (by decide)
        (reads_renderNested leftInputs) (reads_renderNested rightInputs)
      simpa [render, row] using operands

/-- Terms over the input can be told apart by their expressions. -/
theorem eq_of_expression_eq
    {term other : Term}
    (namesInputs : term.NamesInputs)
    (otherNamesInputs : other.NamesInputs)
    (same : term.expression = other.expression) :
    term = other := by
  induction term generalizing other with
  | constant value =>
      cases other with
      | constant otherValue =>
          have decimal_eq := Expression.atom.inj same
          rw [UInt8.toNat_inj.mp (Nat.repr_inj.mp decimal_eq)]
      | symbol name =>
          obtain ⟨index, rfl⟩ := otherNamesInputs name rfl
          exact absurd (Expression.atom.inj same) (toString_ne_inputName _ _)
      | add | sub => cases same
  | symbol name =>
      cases other with
      | constant otherValue =>
          obtain ⟨index, rfl⟩ := namesInputs name rfl
          exact absurd (Expression.atom.inj same).symm
            (toString_ne_inputName _ _)
      | symbol otherName => rw [Expression.atom.inj same]
      | add | sub => cases same
  | add left right leftHypothesis rightHypothesis =>
      cases other with
      | add otherLeft otherRight =>
          obtain ⟨leftInputs, rightInputs⟩ := namesInputs.of_add
          obtain ⟨otherLeftInputs, otherRightInputs⟩ := otherNamesInputs.of_add
          simp only [expression, Expression.list.injEq, List.cons.injEq,
            and_true, true_and] at same
          rw [leftHypothesis leftInputs otherLeftInputs same.1,
            rightHypothesis rightInputs otherRightInputs same.2]
      | sub => simp [expression] at same
      | constant | symbol => cases same
  | sub left right leftHypothesis rightHypothesis =>
      cases other with
      | sub otherLeft otherRight =>
          obtain ⟨leftInputs, rightInputs⟩ := namesInputs.of_sub
          obtain ⟨otherLeftInputs, otherRightInputs⟩ := otherNamesInputs.of_sub
          simp only [expression, Expression.list.injEq, List.cons.injEq,
            and_true, true_and] at same
          rw [leftHypothesis leftInputs otherLeftInputs same.1,
            rightHypothesis rightInputs otherRightInputs same.2]
      | add => simp [expression] at same
      | constant | symbol => cases same

/-- Take the expression of a term off a row: a row of three with an operator in
the middle, if there is one, and otherwise the first expression. -/
def takeExpression : List Expression -> Option (Expression × List Expression)
  | left :: .atom "+" :: right :: rest =>
      some (.list [left, .atom "+", right], rest)
  | left :: .atom "-" :: right :: rest =>
      some (.list [left, .atom "-", right], rest)
  | first :: rest => some (first, rest)
  | [] => none

/-- The row of a term can be told from what follows it, if this is a
comparison. -/
theorem takeExpression_row_append
    (term : Term)
    {sign : String}
    (compares : sign = "==" ∨ sign = "!=")
    (rest : List Expression) :
    takeExpression (term.row ++ .atom sign :: rest) =
      some (term.expression, .atom sign :: rest) := by
  cases term with
  | constant value =>
      rcases compares with rfl | rfl <;> simp [row, takeExpression]
  | symbol name =>
      rcases compares with rfl | rfl <;> simp [row, takeExpression]
  | add left right => rfl
  | sub left right => rfl

theorem eq_of_row_append
    {term other : Term}
    {sign otherSign : String}
    {rest otherRest : List Expression}
    (namesInputs : term.NamesInputs)
    (otherNamesInputs : other.NamesInputs)
    (compares : sign = "==" ∨ sign = "!=")
    (otherCompares : otherSign = "==" ∨ otherSign = "!=")
    (same : term.row ++ .atom sign :: rest =
      other.row ++ .atom otherSign :: otherRest) :
    term = other ∧ sign = otherSign ∧ rest = otherRest := by
  have taken := term.takeExpression_row_append compares rest
  rw [same, other.takeExpression_row_append otherCompares] at taken
  simp only [Option.some.injEq, Prod.mk.injEq, List.cons.injEq,
    Expression.atom.injEq] at taken
  obtain ⟨sameExpression, sameSign, sameRest⟩ := taken
  exact ⟨eq_of_expression_eq namesInputs otherNamesInputs sameExpression.symm,
    sameSign.symm, sameRest.symm⟩

/-- Terms over the input can be told apart by their texts. -/
theorem eq_of_render_eq
    {term other : Term}
    (namesInputs : term.NamesInputs)
    (otherNamesInputs : other.NamesInputs)
    (same : term.render = other.render) :
    term = other := by
  have reads := reads_render namesInputs
  rw [same] at reads
  have followed : term.row ++ [.atom "=="] = other.row ++ [.atom "=="] := by
    rw [reads.unique (reads_render otherNamesInputs)]
  exact (eq_of_row_append namesInputs otherNamesInputs (.inl rfl) (.inl rfl)
    followed).1

end Term

/-! ## Predicates and constraints -/

namespace Predicate

/-- The comparison of a predicate. -/
def sign : Predicate -> String
  | .isZero _ => "=="
  | .isNonZero _ => "!="

/-- The row of expressions that the text of a predicate is read as. -/
def row (predicate : Predicate) : List Expression :=
  predicate.term.row ++ [.atom predicate.sign, .atom "0"]

theorem sign_cases (predicate : Predicate) :
    predicate.sign = "==" ∨ predicate.sign = "!=" := by
  cases predicate with
  | isZero term => exact .inl rfl
  | isNonZero term => exact .inr rfl

/-- A predicate is determined by its term and its comparison. -/
theorem eq_of_term_eq_of_sign_eq
    {predicate other : Predicate}
    (sameTerm : predicate.term = other.term)
    (sameSign : predicate.sign = other.sign) :
    predicate = other := by
  cases predicate <;> cases other <;> simp_all [term, sign]

theorem reads_render
    {predicate : Predicate}
    (namesInputs : predicate.term.NamesInputs) :
    Reads predicate.render predicate.row := by
  have zero : Reads "0" [.atom "0"] := reads_word (by decide)
  have comparison : Reads predicate.sign [.atom predicate.sign] := by
    apply reads_word
    rcases predicate.sign_cases with sign_eq | sign_eq <;> rw [sign_eq] <;>
      decide
  have whole := ((Term.reads_render namesInputs).separated (.inl rfl)
    comparison).separated (.inl rfl) zero
  cases predicate <;>
    simpa [render, row, term, sign, String.append_assoc] using whole

/-- The row of a predicate can be told from what follows it. -/
theorem eq_of_row_append
    {predicate other : Predicate}
    {rest otherRest : List Expression}
    (namesInputs : predicate.term.NamesInputs)
    (otherNamesInputs : other.term.NamesInputs)
    (same : predicate.row ++ rest = other.row ++ otherRest) :
    predicate = other ∧ rest = otherRest := by
  simp only [row, List.append_assoc, List.cons_append, List.nil_append] at same
  obtain ⟨sameTerm, sameSign, sameRest⟩ := Term.eq_of_row_append namesInputs
    otherNamesInputs predicate.sign_cases other.sign_cases same
  exact ⟨eq_of_term_eq_of_sign_eq sameTerm sameSign,
    (List.cons.inj sameRest).2⟩

/-- The row of a predicate is longer than one word. -/
theorem row_append_ne_singleton
    (predicate : Predicate)
    (rest : List Expression)
    (word : Expression) :
    predicate.row ++ rest ≠ [word] := by
  intro same
  have length_eq := congrArg List.length same
  simp only [row, List.length_append, List.length_cons, List.length_nil]
    at length_eq
  omega

/-- The row of expressions that the texts of further clauses are read as. -/
def laterRow : List Predicate -> List Expression
  | [] => []
  | clause :: rest => .atom "&&" :: (clause.row ++ laterRow rest)

/-- Clauses that are joined are read one after the other. -/
theorem reads_joined
    {clause : Predicate}
    {rest : List Predicate}
    (namesInputs : ∀ other ∈ clause :: rest, other.term.NamesInputs) :
    Reads (" && ".intercalate ((clause :: rest).map render))
      (clause.row ++ laterRow rest) := by
  induction rest generalizing clause with
  | nil =>
      have first := reads_render (namesInputs clause List.mem_cons_self)
      simpa [laterRow] using first
  | cons next rest inductionHypothesis =>
      obtain ⟨clauseInputs, laterInputs⟩ := List.forall_mem_cons.mp namesInputs
      have conjunction : Reads "&&" [.atom "&&"] := reads_word (by decide)
      have whole := ((reads_render clauseInputs).separated (.inl rfl)
        conjunction).separated (.inl rfl) (inductionHypothesis laterInputs)
      rw [List.map_cons, String.intercalate_cons_of_ne_nil (by simp)]
      simpa [laterRow, String.append_assoc] using whole

/-- Further clauses over the input can be told apart by their rows. -/
theorem eq_of_laterRow_eq
    {clauses others : List Predicate}
    (namesInputs : ∀ clause ∈ clauses, clause.term.NamesInputs)
    (othersNameInputs : ∀ clause ∈ others, clause.term.NamesInputs)
    (same : laterRow clauses = laterRow others) :
    clauses = others := by
  induction clauses generalizing others with
  | nil =>
      cases others with
      | nil => rfl
      | cons other otherRest => cases same
  | cons clause rest inductionHypothesis =>
      cases others with
      | nil => cases same
      | cons other otherRest =>
          obtain ⟨clauseInputs, restInputs⟩ :=
            List.forall_mem_cons.mp namesInputs
          obtain ⟨otherInputs, otherRestInputs⟩ :=
            List.forall_mem_cons.mp othersNameInputs
          obtain ⟨rfl, sameRest⟩ := eq_of_row_append clauseInputs otherInputs
            (List.cons.inj same).2
          rw [inductionHypothesis restInputs otherRestInputs sameRest]

end Predicate

namespace Constraint

/-- The row of expressions that the text of a constraint is read as. -/
def row (constraint : Constraint) : List Expression :=
  match constraint.clauses with
  | [] => [.atom "true"]
  | clause :: rest => clause.row ++ Predicate.laterRow rest

theorem reads_render
    {constraint : Constraint}
    (namesInputs : constraint.NamesInputs) :
    Reads constraint.render constraint.row := by
  unfold NamesInputs at namesInputs
  rw [render, row, isEmpty_eq]
  cases clauses_eq : constraint.clauses with
  | nil => exact reads_word (by decide)
  | cons clause rest =>
      rw [clauses_eq] at namesInputs
      exact Predicate.reads_joined namesInputs

/-- Constraints over the input can be told apart by their rows. -/
theorem eq_of_row_eq
    {constraint other : Constraint}
    (namesInputs : constraint.NamesInputs)
    (otherNamesInputs : other.NamesInputs)
    (same : constraint.row = other.row) :
    constraint = other := by
  rw [← clauses_inj]
  unfold NamesInputs at namesInputs otherNamesInputs
  unfold row at same
  cases clauses_eq : constraint.clauses with
  | nil =>
      cases others_eq : other.clauses with
      | nil => rfl
      | cons otherClause otherRest =>
          rw [clauses_eq, others_eq] at same
          exact absurd same.symm (otherClause.row_append_ne_singleton _ _)
  | cons clause rest =>
      cases others_eq : other.clauses with
      | nil =>
          rw [clauses_eq, others_eq] at same
          exact absurd same (clause.row_append_ne_singleton _ _)
      | cons otherClause otherRest =>
          rw [clauses_eq] at namesInputs same
          rw [others_eq] at otherNamesInputs same
          obtain ⟨clauseInputs, restInputs⟩ :=
            List.forall_mem_cons.mp namesInputs
          obtain ⟨otherInputs, otherRestInputs⟩ :=
            List.forall_mem_cons.mp otherNamesInputs
          obtain ⟨rfl, sameRest⟩ := Predicate.eq_of_row_append clauseInputs
            otherInputs same
          rw [Predicate.eq_of_laterRow_eq restInputs otherRestInputs sameRest]

/-- Constraints over the input can be told apart by their texts. -/
theorem render_eq_iff
    {constraint other : Constraint}
    (namesInputs : constraint.NamesInputs)
    (otherNamesInputs : other.NamesInputs) :
    constraint.render = other.render ↔ constraint = other := by
  refine ⟨?_, congrArg render⟩
  intro same
  have reads := reads_render namesInputs
  rw [same] at reads
  exact eq_of_row_eq namesInputs otherNamesInputs
    (reads.unique (reads_render otherNamesInputs))

end Constraint

/-! ## Values -/

namespace Value

/-- All names of a value are names of input bytes. -/
def NamesInputs (value : Value) : Prop := value.toTerm.NamesInputs

/-- Values over the input can be told apart by their texts. -/
theorem eq_of_render_eq
    {value other : Value}
    (namesInputs : value.NamesInputs)
    (otherNamesInputs : other.NamesInputs)
    (same : value.render = other.render) :
    value = other := by
  -- A brace is not a digit.
  have differ {number : Nat} {text : String}
      (decimal_eq : toString number = "\x7b" ++ text ++ "\x7d") : False := by
    have text_eq : (toString number).toList =
        '\x7b' :: (text ++ "\x7d").toList := by
      simp [decimal_eq]
    cases isDigit_of_toString_eq text_eq
  cases value with
  | concrete byte =>
      cases other with
      | concrete otherByte =>
          rw [UInt8.toNat_inj.mp (Nat.repr_inj.mp same)]
      | symbolic term => exact (differ same).elim
  | symbolic term =>
      cases other with
      | concrete otherByte => exact (differ same.symm).elim
      | symbolic otherTerm =>
          have sameText : term.render = otherTerm.render := by
            simpa [render] using same
          have sameTerm : term = otherTerm :=
            Term.eq_of_render_eq namesInputs otherNamesInputs sameText
          rw [sameTerm]

end Value

/-! ## Reported paths -/

namespace Engine

/-- What comes out of a slice is among the paths on which it ends. -/
theorem mem_states_of_mem_outcomes
    {engine : Engine}
    {outcome : Outcome Path}
    {path : Path}
    (member : path ∈ engine.outcomes outcome) :
    path ∈ outcome.states := by
  cases outcome with
  | forked location zero nonZero =>
      have side := List.mem_of_mem_filter member
      exact side
  | advanced | done | faulted => exact member

/-- All paths of the engine are in states that are met when the program is run
from its start. -/
theorem Reached.reachable
    {program : Program}
    {config : Config}
    {watchdog : Watchdog}
    {engine : Engine}
    (reached : Reached program config watchdog engine) :
    ∀ path ∈ engine.paths,
      State.Reachable program config.outputPolicy config.tapeCapacity
        path.state := by
  refine reached.invariant (fun engine => ∀ path ∈ engine.paths,
    State.Reachable program config.outputPolicy config.tapeCapacity
      path.state) ?_ ?_ ?_
  · intro names path member
    rw [List.mem_singleton.mp member]
    exact .initial
  · intro before after holds rests
    unfold paths at holds ⊢
    rwa [rests.completed, rests.faulted, rests.pending]
  · intro before path rest after budget program_eq config_eq holds taken filed
    have earlier := perm_paths_of_taken taken
    intro next member
    rcases List.mem_append.mp (filed.perm_paths.mem_iff.mp member) with
      member | member
    · apply State.Reachable.step budget
        (holds path (earlier.mem_iff.mpr List.mem_cons_self))
      rw [← program_eq, ← config_eq, ← path.states_follow before.names]
      exact List.mem_map_of_mem (mem_states_of_mem_outcomes member)
    · exact holds next (earlier.mem_iff.mpr (List.mem_cons_of_mem _ member))

/-- The texts of the constraints in the report of an engine are those of its
paths. -/
theorem constraints_of_report (engine : Engine) :
    (Summary.ofExploration engine.result).paths.map PathReport.constraint =
      engine.paths.map fun path => path.state.constraint.render := by
  simp only [Summary.ofExploration, result, paths, List.map_append,
    List.map_map]
  rfl

/-- No text of a constraint is reported twice. -/
theorem Reached.nodup_constraints
    {program : Program}
    {config : Config}
    {watchdog : Watchdog}
    {engine : Engine}
    (reached : Reached program config watchdog engine) :
    ((Summary.ofExploration engine.result).paths.map
      PathReport.constraint).Nodup := by
  rw [constraints_of_report, List.Nodup, List.pairwise_map]
  apply reached.pairwise_partsFrom.imp_of_mem
  intro path other member otherMember parts same
  have namesInputs := (reached.reachable path member).namesInputs
  have otherNamesInputs := (reached.reachable other otherMember).namesInputs
  exact Constraint.PartsFrom.ne parts
    ((Constraint.render_eq_iff namesInputs otherNamesInputs).mp same)

end Engine

/-- The texts of constraints and values are unambiguous.  Two constraints on the
input, whose terms are nested in any way, have the same text exactly if they are
the same constraint, and two values over the input with the same text are the
same value.  In the report of an exploration, after any number of calls of the
engine, two entries whose constraints have the same text are one entry. -/
theorem texts_are_unambiguous :
    (∀ constraint other : Constraint,
      constraint.NamesInputs -> other.NamesInputs ->
        (constraint.render = other.render ↔ constraint = other)) ∧
    (∀ value other : Value,
      value.NamesInputs -> other.NamesInputs ->
        value.render = other.render -> value = other) ∧
    (∀ (program : Program) (config : Config) (watchdog : Watchdog)
        (engine : Engine),
      Engine.Reached program config watchdog engine ->
        let reports := (Summary.ofExploration engine.result).paths
        ∀ (first second : Nat) (report other : PathReport),
          reports[first]? = some report -> reports[second]? = some other ->
            report.constraint = other.constraint -> first = second) := by
  refine ⟨?_, ?_, ?_⟩
  · intro constraint other namesInputs otherNamesInputs
    exact Constraint.render_eq_iff namesInputs otherNamesInputs
  · intro value other namesInputs otherNamesInputs same
    exact Value.eq_of_render_eq namesInputs otherNamesInputs same
  · intro program config watchdog engine reached reports first second report
      other first_eq second_eq same
    have texts_eq : (reports.map PathReport.constraint)[first]? =
        (reports.map PathReport.constraint)[second]? := by
      rw [List.getElem?_map, List.getElem?_map, first_eq, second_eq,
        Option.map_some, Option.map_some, same]
    obtain ⟨inside, -⟩ := List.getElem?_eq_some_iff.mp first_eq
    have mapInside : first < (reports.map PathReport.constraint).length := by
      rwa [List.length_map]
    exact (List.getElem?_inj mapInside reached.nodup_constraints).mp texts_eq

/-- The difference of two input bytes, less ten. -/
def leftNested : Term :=
  .sub (.sub (.symbol (inputName 1)) (.symbol (inputName 10))) (.constant 10)

/-- An input byte, less the difference of another one and ten. -/
def rightNested : Term :=
  .sub (.symbol (inputName 1)) (.sub (.symbol (inputName 10)) (.constant 10))

/-- Parentheses tell two nested differences apart, in a clause and as a value.
The loop that tests an input byte for ever reports four paths, and a report with
the text of the second one is the second one. -/
theorem texts_are_unambiguous_nested :
    let left := Constraint.trivial.and (.isZero leftNested)
    let right := Constraint.trivial.and (.isZero rightNested)
    let reports :=
      (Summary.ofExploration Engine.spinningEngine.execute.2.result).paths
    (left.NamesInputs ∧ right.NamesInputs ∧
      left.render = "(input_1 - input_10) - 10 == 0" ∧
      right.render = "input_1 - (input_10 - 10) == 0" ∧
      left.render ≠ right.render) ∧
    (∀ value : Value, value.NamesInputs ->
      value.render = "\x7b(input_1 - input_10) - 10\x7d" ->
        value = .symbolic leftNested) ∧
    reports.map PathReport.constraint =
      ["input_0 == 0", "input_0 != 0 && input_0 == 0",
        "input_0 != 0 && input_0 != 0 && input_0 != 0",
        "input_0 != 0 && input_0 != 0 && input_0 == 0"] ∧
    (∀ (index : Nat) (report : PathReport), reports[index]? = some report ->
      report.constraint = "input_0 != 0 && input_0 == 0" -> index = 1) := by
  have isInput {name : String}
      (same : inputName 1 = name ∨ inputName 10 = name) :
      ∃ index, name = inputName index := by
    rcases same with same | same
    · exact ⟨1, same.symm⟩
    · exact ⟨10, same.symm⟩
  have leftInputs : leftNested.NamesInputs := by
    intro name mentions
    apply isInput
    simpa [leftNested, Term.Mentions] using mentions
  have rightInputs : rightNested.NamesInputs := by
    intro name mentions
    apply isInput
    simpa [rightNested, Term.Mentions] using mentions
  have single {term : Term} (namesInputs : term.NamesInputs) :
      (Constraint.trivial.and (.isZero term)).NamesInputs := by
    intro clause member
    rwa [List.mem_singleton.mp member]
  obtain ⟨constraints, values, reported⟩ := texts_are_unambiguous
  intro left right reports
  have texts : reports.map PathReport.constraint =
      ["input_0 == 0", "input_0 != 0 && input_0 == 0",
        "input_0 != 0 && input_0 != 0 && input_0 != 0",
        "input_0 != 0 && input_0 != 0 && input_0 == 0"] := by
    rw [Engine.constraints_of_report, Engine.execute_eq_complete]
    iterate 5 rw [Engine.complete_of_next rfl]
    rw [Engine.complete_of_truncated rfl]
    decide
  refine ⟨⟨single leftInputs, single rightInputs, by decide, by decide, ?_⟩, ?_,
    texts, ?_⟩
  · intro same
    have equal := (constraints left right (single leftInputs)
      (single rightInputs)).mp same
    exact absurd equal (by decide)
  · intro value namesInputs render_eq
    apply values value (.symbolic leftNested) namesInputs leftInputs
    rw [render_eq]
    decide
  · intro index report found text_eq
    have second_eq : (reports.map PathReport.constraint)[1]? =
        some "input_0 != 0 && input_0 == 0" := by
      rw [texts]
      rfl
    rw [List.getElem?_map, Option.map_eq_some_iff] at second_eq
    obtain ⟨second, secondFound, secondText⟩ := second_eq
    have reached : Engine.Reached Engine.spinning _ _
        Engine.spinningEngine.execute.2 :=
      .executed (.created _)
    exact reported _ _ _ _ reached index 1 report second found secondFound
      (text_eq.trans secondText.symm)

end SymbolicTape
