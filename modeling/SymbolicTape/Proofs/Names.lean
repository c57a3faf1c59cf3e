import Std.Data.String.ToNat
import SymbolicTape.State

/-!
# Names of unknown bytes

The names that occur in a term or a constraint are listed in increasing order
and each once, whatever the order in which they are met.  The names of input
bytes are words of ASCII characters, for which the order of characters is the
order of bytes.
-/

namespace SymbolicTape

/-! ## Lists of names -/

namespace Term

/-- A name occurs in a term. -/
def Mentions (name : String) : Term -> Prop
  | .constant _ => False
  | .symbol other => other = name
  | .add left right => left.Mentions name ∨ right.Mentions name
  | .sub left right => left.Mentions name ∨ right.Mentions name

/-- All names of a term are names of input bytes. -/
def NamesInputs (term : Term) : Prop :=
  ∀ name, term.Mentions name -> ∃ index, name = inputName index

theorem NamesInputs.of_add
    {left right : Term}
    (namesInputs : (left.add right).NamesInputs) :
    left.NamesInputs ∧ right.NamesInputs :=
  ⟨fun name mentions => namesInputs name (.inl mentions),
    fun name mentions => namesInputs name (.inr mentions)⟩

theorem NamesInputs.of_sub
    {left right : Term}
    (namesInputs : (left.sub right).NamesInputs) :
    left.NamesInputs ∧ right.NamesInputs :=
  ⟨fun name mentions => namesInputs name (.inl mentions),
    fun name mentions => namesInputs name (.inr mentions)⟩

theorem mem_insertName {name other : String} {names : List String} :
    other ∈ insertName name names ↔ other = name ∨ other ∈ names := by
  fun_induction insertName name names with
  | case1 => simp
  | case2 => simp
  | case3 first rest _ _ inductionHypothesis =>
      simp only [List.mem_cons, inductionHypothesis]
      exact or_left_comm
  | case4 first rest notBefore notAfter =>
      have same : name = first :=
        String.le_antisymm (String.not_lt.mp notAfter)
          (String.not_lt.mp notBefore)
      simp [same]

/-- An increasing list of names stays increasing. -/
theorem pairwise_insertName
    (name : String)
    {names : List String}
    (increasing : names.Pairwise (· < ·)) :
    (insertName name names).Pairwise (· < ·) := by
  fun_induction insertName name names with
  | case1 => exact List.pairwise_singleton _ _
  | case2 first rest before =>
      refine List.pairwise_cons.mpr ⟨?_, increasing⟩
      obtain ⟨least, -⟩ := List.pairwise_cons.mp increasing
      intro other member
      rcases List.mem_cons.mp member with rfl | later
      · exact before
      · exact String.lt_trans before (least other later)
  | case3 first rest _ after inductionHypothesis =>
      obtain ⟨least, restIncreasing⟩ := List.pairwise_cons.mp increasing
      refine List.pairwise_cons.mpr ⟨?_, inductionHypothesis restIncreasing⟩
      intro other member
      rcases mem_insertName.mp member with rfl | later
      · exact after
      · exact least other later
  | case4 => exact increasing

theorem mem_collectNames {name : String} {term : Term} {names : List String} :
    name ∈ term.collectNames names ↔ name ∈ names ∨ term.Mentions name := by
  induction term generalizing names with
  | constant value => simp [collectNames, Mentions]
  | symbol other =>
      simp only [collectNames, Mentions, mem_insertName, eq_comm, or_comm]
  | add left right leftHypothesis rightHypothesis =>
      simp only [collectNames, Mentions, leftHypothesis, rightHypothesis,
        or_assoc]
  | sub left right leftHypothesis rightHypothesis =>
      simp only [collectNames, Mentions, leftHypothesis, rightHypothesis,
        or_assoc]

theorem pairwise_collectNames
    (term : Term)
    {names : List String}
    (increasing : names.Pairwise (· < ·)) :
    (term.collectNames names).Pairwise (· < ·) := by
  induction term generalizing names with
  | constant value => exact increasing
  | symbol name => exact pairwise_insertName name increasing
  | add left right leftHypothesis rightHypothesis =>
      exact rightHypothesis (leftHypothesis increasing)
  | sub left right leftHypothesis rightHypothesis =>
      exact rightHypothesis (leftHypothesis increasing)

theorem mem_names {name : String} {term : Term} :
    name ∈ term.names ↔ term.Mentions name := by
  simp [names, mem_collectNames]

end Term

namespace Constraint

/-- All names of a constraint are names of input bytes. -/
def NamesInputs (constraint : Constraint) : Prop :=
  ∀ clause ∈ constraint.clauses, clause.term.NamesInputs

/-- The names of a constraint are those that occur in its clauses. -/
theorem mem_names {name : String} {constraint : Constraint} :
    name ∈ constraint.names ↔
      ∃ clause ∈ constraint.clauses, clause.term.Mentions name := by
  have collected (clauses : List Predicate) (names : List String) :
      name ∈ clauses.foldl
          (fun names clause => clause.term.collectNames names) names ↔
        name ∈ names ∨ ∃ clause ∈ clauses, clause.term.Mentions name := by
    induction clauses generalizing names with
    | nil => simp
    | cons clause rest inductionHypothesis =>
        simp [inductionHypothesis, Term.mem_collectNames, or_assoc]
  simp [names, collected]

theorem pairwise_names (constraint : Constraint) :
    constraint.names.Pairwise (· < ·) := by
  have collected (clauses : List Predicate) {names : List String}
      (increasing : names.Pairwise (· < ·)) :
      (clauses.foldl (fun names clause => clause.term.collectNames names)
        names).Pairwise (· < ·) := by
    induction clauses generalizing names with
    | nil => exact increasing
    | cons clause rest inductionHypothesis =>
        exact inductionHypothesis
          (Term.pairwise_collectNames clause.term increasing)
  exact collected constraint.clauses List.Pairwise.nil

end Constraint

/-! ## The characters of names -/

/-- All characters of the names of input bytes come from a small part of the
ASCII characters, which begins with the digits. -/
theorem toNat_of_mem_inputName
    {index : Nat}
    {character : Char}
    (member : character ∈ (inputName index).toList) :
    48 ≤ character.toNat ∧ character.toNat < 128 := by
  unfold inputName at member
  rw [String.toList_append, List.mem_append] at member
  rcases member with letter | digit
  · have letters : "input_".toList.all (fun character =>
        decide (48 ≤ character.toNat ∧ character.toNat < 128)) = true := by
      decide
    exact of_decide_eq_true (List.all_eq_true.mp letters character letter)
  · rw [Nat.toString_eq_repr, Nat.repr_eq_ofList_toDigits,
      String.toList_ofList] at digit
    have isDigit := Nat.isDigit_of_mem_toDigits (by decide) (by decide) digit
    rw [Char.isDigit_iff_toNat] at isDigit
    exact ⟨isDigit.1, Nat.lt_of_le_of_lt isDigit.2 (by decide)⟩

namespace Text

/-- The bytes of a text. -/
def bytes (text : String) : List UInt8 := text.toByteArray.data.toList

/-- In a text of ASCII characters, every character is a byte. -/
theorem flatMap_utf8EncodeChar
    {characters : List Char}
    (ascii : ∀ character ∈ characters, character.toNat < 128) :
    characters.flatMap String.utf8EncodeChar =
      characters.map fun character => character.val.toUInt8 := by
  induction characters with
  | nil => rfl
  | cons character rest inductionHypothesis =>
      obtain ⟨isAscii, restAscii⟩ := List.forall_mem_cons.mp ascii
      have small : character.val ≤ 127 :=
        UInt32.le_iff_toNat_le.mpr (Nat.le_of_lt_succ isAscii)
      rw [List.flatMap_cons, inductionHypothesis restAscii,
        String.utf8EncodeChar_eq_singleton (Char.utf8Size_eq_one_iff.mpr small)]
      rfl

theorem bytes_eq_map
    {text : String}
    (ascii : ∀ character ∈ text.toList, character.toNat < 128) :
    bytes text = text.toList.map fun character => character.val.toUInt8 := by
  have encoded : text.toByteArray = text.toList.utf8Encode := by
    rw [← String.toByteArray_ofList, String.ofList_toList]
  unfold bytes
  rw [encoded, List.utf8Encode, List.toList_data_toByteArray,
    flatMap_utf8EncodeChar ascii]

/-- ASCII characters are in the order of their bytes. -/
theorem toUInt8_lt_toUInt8
    {first second : Char}
    (isAscii : second.toNat < 128)
    (before : first < second) :
    first.val.toUInt8 < second.val.toUInt8 := by
  have lower : first.val.toNat < second.val.toNat := before
  have upper : second.val.toNat < 128 := isAscii
  rw [UInt8.lt_iff_toNat_lt, UInt32.toNat_toUInt8, UInt32.toNat_toUInt8]
  omega

/-- Texts of ASCII characters are in the order of their bytes. -/
theorem bytes_lt_bytes
    {first second : String}
    (firstAscii : ∀ character ∈ first.toList, character.toNat < 128)
    (secondAscii : ∀ character ∈ second.toList, character.toNat < 128)
    (before : first < second) :
    bytes first < bytes second := by
  rw [bytes_eq_map firstAscii, bytes_eq_map secondAscii]
  have lower : first.toList < second.toList := before
  clear firstAscii before
  generalize first.toList = left at lower
  generalize second.toList = right at lower secondAscii
  induction left generalizing right with
  | nil =>
      cases right with
      | nil => exact absurd lower (List.not_lt_nil _)
      | cons character rest => exact List.nil_lt_cons _ _
  | cons character rest inductionHypothesis =>
      cases right with
      | nil => exact absurd lower (List.not_lt_nil _)
      | cons other others =>
          obtain ⟨otherAscii, othersAscii⟩ :=
            List.forall_mem_cons.mp secondAscii
          rw [List.map_cons, List.map_cons, List.cons_lt_cons_iff]
          rcases List.cons_lt_cons_iff.mp lower with less | ⟨rfl, rest_lt⟩
          · exact .inl (toUInt8_lt_toUInt8 otherAscii less)
          · exact .inr ⟨rfl, inductionHypothesis others rest_lt othersAscii⟩

end Text

/-- The names of a constraint on the input increase as texts of bytes. -/
theorem Constraint.NamesInputs.pairwise_bytes
    {constraint : Constraint}
    (namesInputs : constraint.NamesInputs) :
    constraint.names.Pairwise fun first second =>
      Text.bytes first < Text.bytes second := by
  have ascii {name : String} (member : name ∈ constraint.names) :
      ∀ character ∈ name.toList, character.toNat < 128 := by
    obtain ⟨clause, isClause, mentions⟩ := Constraint.mem_names.mp member
    obtain ⟨index, rfl⟩ := namesInputs clause isClause name mentions
    intro character inName
    exact (toNat_of_mem_inputName inName).2
  refine List.Pairwise.imp_of_mem ?_ constraint.pairwise_names
  intro first second firstMember secondMember before
  exact Text.bytes_lt_bytes (ascii firstMember) (ascii secondMember) before

end SymbolicTape
