import Mathlib.Order.Bounds.Basic
import SymbolicTape.Proofs.Brackets

/-!
# Bracket maps accept exactly the balanced programs

A sequence of instructions is balanced if it has as many loop enters as loop
exits and no beginning of it has more exits than enters.  While a bracket map is
built, the number of open enters is the height that has been reached.  So an
exit that finds no open enter is the first one below the ground, and enters that
are open at the end are the ones that no exit closes.

The partner of an enter is described by balance as well: it is the first index
behind the enter up to which the instructions from the enter on are balanced.
-/

namespace SymbolicTape

namespace Brackets

/-- As many loop enters as loop exits, and no beginning with more exits than
enters. -/
structure IsBalanced (instructions : List Opcode) : Prop where
  beginnings : ∀ index,
    (instructions.take index).count .loopExit ≤
      (instructions.take index).count .loopEnter
  total : instructions.count .loopEnter = instructions.count .loopExit

/-- Up to an instruction and with it, more loops are closed than opened. -/
def IsOverclosed (instructions : List Opcode) (index : Nat) : Prop :=
  (instructions.take (index + 1)).count .loopEnter <
    (instructions.take (index + 1)).count .loopExit

/-- The instructions from one index to another, both included. -/
def segment (instructions : List Opcode) (first last : Nat) : List Opcode :=
  (instructions.take (last + 1)).drop first

/-- A loop enter that no later instruction closes. -/
def IsUnclosed (instructions : List Opcode) (enter : Nat) : Prop :=
  instructions[enter]? = some .loopEnter ∧
    ∀ exit, enter < exit -> ¬IsBalanced (segment instructions enter exit)

/-! ## Balance in terms of heights -/

section Height

variable {instructions : List Opcode} {index : Nat}

theorem foldl_rise (instructions : List Opcode) (start : Int) :
    instructions.foldl (fun level opcode => level + opcode.rise) start =
      start + instructions.count .loopEnter
        - instructions.count .loopExit := by
  induction instructions generalizing start with
  | nil => simp
  | cons opcode rest inductionHypothesis =>
      rw [List.foldl_cons, inductionHypothesis]
      cases opcode with
      | loopEnter | loopExit =>
          simp only [Opcode.rise, List.count_cons_self, ne_eq, reduceCtorEq,
            not_false_eq_true, List.count_cons_of_ne]
          omega
      | _ => simp [Opcode.rise]

/-- The height counts loop enters and loop exits. -/
theorem height_eq_count (instructions : List Opcode) (index : Nat) :
    height instructions index =
      (instructions.take index).count .loopEnter
        - (instructions.take index).count .loopExit := by
  unfold height
  rw [foldl_rise, Int.zero_add]

/-- Behind the end the height stays. -/
theorem height_of_length_le (ended : instructions.length ≤ index) :
    height instructions index = height instructions instructions.length := by
  unfold height
  rw [List.take_of_length_le ended, List.take_length]

theorem isBalanced_iff :
    IsBalanced instructions ↔
      (∀ index, 0 ≤ height instructions index) ∧
        height instructions instructions.length = 0 := by
  have total_eq := height_eq_count instructions instructions.length
  rw [List.take_length] at total_eq
  constructor
  · rintro ⟨beginnings, total⟩
    refine ⟨fun index => ?_, by omega⟩
    have := beginnings index
    rw [height_eq_count]
    omega
  · rintro ⟨nonnegative, level⟩
    refine ⟨fun index => ?_, by omega⟩
    have := nonnegative index
    rw [height_eq_count] at this
    omega

theorem isOverclosed_iff :
    IsOverclosed instructions index ↔ height instructions (index + 1) < 0 := by
  unfold IsOverclosed
  rw [height_eq_count]
  omega

/-- Inside a segment the height is taken from its start. -/
theorem height_segment
    {first last : Nat}
    (inOrder : first ≤ last + 1)
    (index : Nat) :
    height (segment instructions first last) index =
      height instructions (min (first + index) (last + 1))
        - height instructions first := by
  have upTo : first ≤ min (first + index) (last + 1) := by omega
  have inner_eq : (segment instructions first last).take index =
      (instructions.take (min (first + index) (last + 1))).drop first := by
    unfold segment
    rw [List.take_drop, List.take_take]
  have outer_eq := List.take_append_drop first
    (instructions.take (min (first + index) (last + 1)))
  rw [List.take_take, Nat.min_eq_left upTo, ← inner_eq] at outer_eq
  rw [height_eq_count, height_eq_count, height_eq_count, ← outer_eq,
    List.count_append, List.count_append]
  omega

/-- A segment is balanced if the height does not fall below that of its start
and is the same again at its end. -/
theorem isBalanced_segment_iff
    {first last : Nat}
    (inOrder : first ≤ last + 1) :
    IsBalanced (segment instructions first last) ↔
      (∀ between, first ≤ between -> between ≤ last + 1 ->
        height instructions first ≤ height instructions between) ∧
        height instructions (last + 1) = height instructions first := by
  have length_le : (segment instructions first last).length ≤ last + 1 := by
    unfold segment
    rw [List.length_drop, List.length_take]
    omega
  rw [isBalanced_iff, ← height_of_length_le length_le, height_segment inOrder,
    Nat.min_eq_right (Nat.le_add_left _ _), Int.sub_eq_zero]
  refine and_congr_left fun _ => ?_
  constructor
  · intro nonnegative between after upTo
    have above := nonnegative (between - first)
    rw [height_segment inOrder, Nat.add_sub_cancel' after,
      Nat.min_eq_left upTo] at above
    omega
  · intro above index
    rw [height_segment inOrder]
    have := above (min (first + index) (last + 1)) (by omega) (by omega)
    omega

end Height

/-! ## Partners in terms of balance -/

section Partners

variable {instructions : List Opcode} {enter exit : Nat}

/-- The partner of a loop enter is the first index up to which the instructions
from the enter on are balanced. -/
theorem Partners.isLeast (partners : Partners instructions enter exit) :
    IsLeast {last | enter < last ∧ IsBalanced (segment instructions enter last)}
      exit := by
  have before := partners.before
  constructor
  · refine ⟨before, (isBalanced_segment_iff (by omega)).mpr ⟨?_, ?_⟩⟩
    · intro between after upTo
      rcases Nat.lt_or_eq_of_le after with inside | rfl
      · rcases Nat.lt_or_eq_of_le upTo with earlier | rfl
        · exact (partners.inside between inside
            (Nat.le_of_lt_succ earlier)).le
        · exact partners.level.ge
      · exact le_rfl
    · exact partners.level
  · rintro last ⟨after, balanced⟩
    by_contra earlier
    obtain ⟨-, level⟩ := (isBalanced_segment_iff (by omega)).mp balanced
    have inside := partners.inside (last + 1) (by omega) (by omega)
    omega

/-- A loop enter is closed if the instructions from it on are balanced
somewhere. -/
theorem exists_partners_of_isBalanced
    (isEnter : instructions[enter]? = some .loopEnter)
    {last : Nat}
    (after : enter < last)
    (balanced : IsBalanced (segment instructions enter last)) :
    ∃ exit, Partners instructions enter exit := by
  obtain ⟨-, level⟩ := (isBalanced_segment_iff (by omega)).mp balanced
  by_contra unclosed
  have isOpen : IsOpen instructions enter (last + 1) :=
    isOpen_iff.mpr ⟨by omega, isEnter, fun exit partners =>
      absurd ⟨exit, partners⟩ unclosed⟩
  have above := isOpen.inside (last + 1) isOpen.before le_rfl
  omega

/-- A loop enter that nothing closes is open at the end. -/
theorem isUnclosed_iff :
    IsUnclosed instructions enter ↔
      IsOpen instructions enter instructions.length := by
  rw [isOpen_iff]
  constructor
  · rintro ⟨isEnter, unclosed⟩
    refine ⟨(List.getElem?_eq_some_iff.mp isEnter).1, isEnter, ?_⟩
    intro exit partners
    exact absurd partners.isLeast.1.2 (unclosed exit partners.before)
  · rintro ⟨-, isEnter, atEnd⟩
    refine ⟨isEnter, ?_⟩
    intro exit after balanced
    obtain ⟨exit, partners⟩ :=
      exists_partners_of_isBalanced isEnter after balanced
    exact absurd partners.exit_lt_length (Nat.not_lt_of_le (atEnd exit partners))

/-- Two loops do not cross. -/
theorem Partners.not_crossing
    {otherEnter otherExit : Nat}
    (partners : Partners instructions enter exit)
    (others : Partners instructions otherEnter otherExit) :
    ¬(enter < otherEnter ∧ otherEnter < exit ∧ exit < otherExit) := by
  rintro ⟨starts, inside, ends⟩
  have level := partners.level
  have outer := partners.inside otherEnter starts (Nat.le_of_lt inside)
  have inner := others.inside (exit + 1) (by omega) (by omega)
  omega

end Partners
end Brackets

/-! ## What building a bracket map decides -/

namespace BracketMap

open Brackets

/-- How far the loops are nested where a bracket map is being built.  There are
as many open enters as the height says, and it was never below the ground. -/
structure Leveled
    (instructions : List Opcode)
    (index : Nat)
    (opened : List Nat) : Prop where
  stacked : Stacked instructions index opened
  height_eq : height instructions index = opened.length
  nonnegative : ∀ earlier, earlier ≤ index -> 0 ≤ height instructions earlier

/-- What the outcome of building a bracket map says about the instructions. -/
inductive Verdict (instructions : List Opcode) :
    Except (Located LoadError) BracketMap -> Prop
  | balanced
      {map : BracketMap}
      (isBalanced : IsBalanced instructions) :
      Verdict instructions (.ok map)
  | unmatchedExit
      {exit : Nat}
      (isFirst : IsLeast {index | IsOverclosed instructions index} exit) :
      Verdict instructions (.error ⟨exit, .unmatchedLoopExit⟩)
  | unmatchedEnter
      {enter : Nat}
      (noExit : ∀ index, ¬IsOverclosed instructions index)
      (isFirst : IsLeast {index | IsUnclosed instructions index} enter) :
      Verdict instructions (.error ⟨enter, .unmatchedLoopEnter⟩)

section Leveled

variable {instructions : List Opcode} {index : Nat} {opened : List Nat}

theorem leveled_zero (instructions : List Opcode) :
    Leveled instructions 0 [] := by
  refine ⟨stacked_zero instructions, rfl, ?_⟩
  intro earlier atStart
  obtain rfl := Nat.le_zero.mp atStart
  exact le_rfl

/-- One more instruction, with the open enters behind it. -/
theorem Leveled.succ
    {stack : List Nat}
    (leveled : Leveled instructions index opened)
    (stacked : Stacked instructions (index + 1) stack)
    (height_eq : height instructions (index + 1) = stack.length) :
    Leveled instructions (index + 1) stack := by
  refine ⟨stacked, height_eq, ?_⟩
  intro earlier upTo
  rcases Nat.lt_or_eq_of_le upTo with before | rfl
  · exact leveled.nonnegative earlier (Nat.le_of_lt_succ before)
  · omega

/-- A loop exit that finds no open enter is the first one too many. -/
theorem Leveled.isLeast_overclosed
    (leveled : Leveled instructions index [])
    (isExit : instructions[index]? = some .loopExit) :
    IsLeast {index | IsOverclosed instructions index} index := by
  have level := leveled.height_eq
  have falls := height_succ_of_exit isExit
  constructor
  · refine isOverclosed_iff.mpr ?_
    rw [List.length_nil] at level
    omega
  · intro other overclosed
    by_contra earlier
    have below := isOverclosed_iff.mp overclosed
    have := leveled.nonnegative (other + 1) (by omega)
    omega

/-- At the end the height was never below the ground. -/
theorem Leveled.height_nonneg
    (leveled : Leveled instructions instructions.length opened)
    (index : Nat) :
    0 ≤ height instructions index := by
  rcases Nat.le_total index instructions.length with inside | ended
  · exact leveled.nonnegative index inside
  · rw [height_of_length_le ended]
    exact leveled.nonnegative _ le_rfl

/-- At the end the outermost open enter is the first one that nothing closes. -/
theorem Leveled.isLeast_unclosed
    {enter : Nat}
    (leveled : Leveled instructions instructions.length opened)
    (outermost : opened.getLast? = some enter) :
    IsLeast {index | IsUnclosed instructions index} enter := by
  have mem_iff (other : Nat) :
      other ∈ opened ↔ IsUnclosed instructions other :=
    (leveled.stacked.mem_iff other).trans isUnclosed_iff.symm
  obtain ⟨inner, rfl⟩ := List.getLast?_eq_some_iff.mp outermost
  constructor
  · exact (mem_iff enter).mp (List.mem_append_right _ List.mem_cons_self)
  · intro other unclosed
    rcases List.mem_append.mp ((mem_iff other).mpr unclosed) with inside | last
    · have decreasing := leveled.stacked.decreasing.pairwise
      exact ((List.pairwise_append.mp decreasing).2.2 other inside enter
        List.mem_cons_self).le
    · exact (List.mem_singleton.mp last).ge

/-- What is built from there on decides the balance of the instructions. -/
theorem Leveled.verdict_buildFrom
    {rest : List Opcode}
    {partners : Array (Option Nat)}
    (leveled : Leveled instructions index opened)
    (left : instructions.drop index = rest)
    (inBounds : index ≤ instructions.length) :
    Verdict instructions (buildFrom rest index opened partners) := by
  -- The recursion passes the instructions one by one, and each keeps the level.
  fun_induction buildFrom rest index opened partners with
  | case1 index opened partners closed =>
      obtain rfl : index = instructions.length :=
        Nat.le_antisymm inBounds (List.drop_eq_nil_iff.mp left)
      obtain rfl := List.getLast?_eq_none_iff.mp closed
      exact .balanced (isBalanced_iff.mpr
        ⟨leveled.height_nonneg, leveled.height_eq⟩)
  | case2 index opened partners outermost stillOpen =>
      obtain rfl : index = instructions.length :=
        Nat.le_antisymm inBounds (List.drop_eq_nil_iff.mp left)
      refine .unmatchedEnter ?_ (leveled.isLeast_unclosed stillOpen)
      intro other overclosed
      have below := isOverclosed_iff.mp overclosed
      have := leveled.height_nonneg (other + 1)
      omega
  | case3 rest index opened partners inductionHypothesis =>
      obtain ⟨isEnter, left⟩ := of_drop_eq_cons left
      have level := leveled.height_eq
      have rises := height_succ_of_enter isEnter
      refine inductionHypothesis (leveled.succ (leveled.stacked.enter isEnter) ?_)
        left (List.getElem?_eq_some_iff.mp isEnter).1
      rw [List.length_cons]
      push_cast
      omega
  | case4 rest index partners =>
      obtain ⟨isExit, -⟩ := of_drop_eq_cons left
      exact .unmatchedExit (leveled.isLeast_overclosed isExit)
  | case5 rest index innermost opened partners inductionHypothesis =>
      obtain ⟨isExit, left⟩ := of_drop_eq_cons left
      have level := leveled.height_eq
      have falls := height_succ_of_exit isExit
      refine inductionHypothesis (leveled.succ (leveled.stacked.exit isExit) ?_)
        left (List.getElem?_eq_some_iff.mp isExit).1
      rw [List.length_cons] at level
      push_cast at level
      omega
  | case6 opcode rest index opened partners notEnter atNone atSome
      inductionHypothesis =>
      obtain ⟨fetched, left⟩ := of_drop_eq_cons left
      have notExit : opcode ≠ .loopExit := by
        cases opened with
        | nil => exact atNone rfl
        | cons innermost opened => exact atSome innermost opened rfl
      have plain : instructions[index]? ≠ some .loopEnter := by
        rw [fetched]
        simpa using notEnter
      have alsoPlain : instructions[index]? ≠ some .loopExit := by
        rw [fetched]
        simpa using notExit
      have level := leveled.height_eq
      have stays := height_succ_of_plain plain alsoPlain
      exact inductionHypothesis
        (leveled.succ (leveled.stacked.plain plain alsoPlain) (by omega)) left
        (List.getElem?_eq_some_iff.mp fetched).1

end Leveled

theorem verdict_build (instructions : Array Opcode) :
    Verdict instructions.toList (build instructions) :=
  (leveled_zero instructions.toList).verdict_buildFrom rfl (Nat.zero_le _)

/-- Instructions for which a bracket map is refused are not balanced. -/
theorem not_isBalanced_of_build
    {instructions : Array Opcode}
    {problem : Located LoadError}
    (refused : build instructions = .error problem) :
    ¬IsBalanced instructions.toList := by
  intro balanced
  obtain ⟨nonnegative, level⟩ := isBalanced_iff.mp balanced
  have verdict := verdict_build instructions
  rw [refused] at verdict
  cases verdict with
  | unmatchedExit isFirst =>
      have below := isOverclosed_iff.mp isFirst.1
      exact absurd (nonnegative _) (Int.not_le.mpr below)
  | @unmatchedEnter enter noExit isFirst =>
      have isOpen := isUnclosed_iff.mp isFirst.1
      have above := isOpen.inside _ isOpen.before le_rfl
      have grounded := nonnegative enter
      omega

/-! ## What a bracket map holds -/

/-- A bracket map that pairs the loop instructions as they are nested. -/
structure Pairs (map : BracketMap) (instructions : List Opcode) : Prop where
  involution : ∀ first second,
    map.partner? first = some second ↔ map.partner? second = some first
  /-- Exactly the loop instructions have a partner. -/
  domain : ∀ index, (map.partner? index).isSome = true ↔
    instructions[index]? = some .loopEnter ∨
      instructions[index]? = some .loopExit
  /-- A loop ends where the instructions from its enter on are first balanced. -/
  closest : ∀ enter, instructions[enter]? = some .loopEnter ->
    ∃ exit, map.partner? enter = some exit ∧
      IsLeast
        {last | enter < last ∧ IsBalanced (segment instructions enter last)}
        exit
  /-- Of two loops that overlap, one is inside the other. -/
  uncrossed : ∀ enter exit otherEnter otherExit,
    map.partner? enter = some exit ->
      map.partner? otherEnter = some otherExit ->
        ¬(enter < otherEnter ∧ otherEnter < exit ∧ exit < otherExit)
  loopCount_eq : map.loopCount = instructions.count .loopEnter

theorem size_of_buildFrom
    {rest : List Opcode}
    {index : Nat}
    {opened : List Nat}
    {partners : Array (Option Nat)}
    {map : BracketMap}
    (built : buildFrom rest index opened partners = .ok map) :
    map.partners.size = partners.size := by
  fun_induction buildFrom rest index opened partners with
  | case1 => cases built; rfl
  | case2 => cases built
  | case4 => cases built
  | case5 rest index innermost opened partners inductionHypothesis =>
      rw [inductionHypothesis built, size_pair]
  | case3 | case6 =>
      rename_i inductionHypothesis
      exact inductionHypothesis built

section Built

variable {instructions : List Opcode} {map : BracketMap}

theorem Describes.isSome_partner?_iff
    (described : map.Describes instructions)
    (index : Nat) :
    (map.partner? index).isSome = true ↔
      instructions[index]? = some .loopEnter ∨
        instructions[index]? = some .loopExit := by
  rw [Option.isSome_iff_exists]
  constructor
  · rintro ⟨partner, found⟩
    rcases described.partner?_eq_some_iff.mp found with partners | partners
    · exact .inl partners.isEnter
    · exact .inr partners.isExit
  · rintro (isEnter | isExit)
    · obtain ⟨exit, partners⟩ := described.enters isEnter
      exact ⟨exit, described.partner?_eq_some_iff.mpr (.inl partners)⟩
    · obtain ⟨enter, partners⟩ := described.exits isExit
      exact ⟨enter, described.partner?_eq_some_iff.mpr (.inr partners)⟩

/-- A bracket map has an entry where there is a loop instruction. -/
theorem Describes.map_isSome_partners
    (described : map.Describes instructions)
    (size_eq : map.partners.size = instructions.length) :
    map.partners.toList.map Option.isSome =
      instructions.map Opcode.isBranch := by
  refine List.ext_getElem (by simp [size_eq]) ?_
  intro index inBounds alsoInBounds
  rw [List.length_map] at inBounds alsoInBounds
  have entry_eq : map.partner? index = map.partners.toList[index] := by
    simp [partner?, Array.getD, size_eq, alsoInBounds]
  have isSome_iff := described.isSome_partner?_iff index
  rw [entry_eq, List.getElem?_eq_getElem alsoInBounds] at isSome_iff
  rw [List.getElem_map, List.getElem_map, Bool.eq_iff_iff, isSome_iff]
  cases instructions[index] <;> simp [Opcode.isBranch]

theorem countP_isBranch (instructions : List Opcode) :
    instructions.countP Opcode.isBranch =
      instructions.count .loopEnter + instructions.count .loopExit := by
  induction instructions with
  | nil => rfl
  | cons opcode rest inductionHypothesis =>
      rw [List.countP_cons, inductionHypothesis]
      cases opcode with
      | loopEnter => simp [Opcode.isBranch, Nat.add_right_comm]
      | loopExit => simp [Opcode.isBranch, Nat.add_assoc]
      | _ => simp [Opcode.isBranch]

/-- The loops of balanced instructions are counted by their enters. -/
theorem Describes.loopCount_eq
    (described : map.Describes instructions)
    (size_eq : map.partners.size = instructions.length)
    (balanced : IsBalanced instructions) :
    map.loopCount = instructions.count .loopEnter := by
  have entries_eq : map.partners.toList.countP Option.isSome =
      instructions.countP Opcode.isBranch := by
    have marks_eq := congrArg (List.countP id)
      (described.map_isSome_partners size_eq)
    rwa [List.countP_map, List.countP_map] at marks_eq
  have total := balanced.total
  unfold loopCount
  rw [entries_eq, countP_isBranch]
  omega

theorem Describes.pairs
    (described : map.Describes instructions)
    (size_eq : map.partners.size = instructions.length)
    (balanced : IsBalanced instructions) :
    map.Pairs instructions := by
  refine ⟨?_, described.isSome_partner?_iff, ?_, ?_,
    described.loopCount_eq size_eq balanced⟩
  · intro first second
    rw [described.partner?_eq_some_iff, described.partner?_eq_some_iff,
      or_comm]
  · intro enter isEnter
    obtain ⟨exit, partners⟩ := described.enters isEnter
    exact ⟨exit, described.partner?_eq_some_iff.mpr (.inl partners),
      partners.isLeast⟩
  · rintro enter exit otherEnter otherExit found otherFound
      ⟨starts, inside, ends⟩
    -- The order of the four indices tells which are the enters.
    rcases described.partner?_eq_some_iff.mp found with partners | partners
    · rcases described.partner?_eq_some_iff.mp otherFound with
        others | others
      · exact partners.not_crossing others ⟨starts, inside, ends⟩
      · have := others.before
        omega
    · have := partners.before
      omega

end Built

theorem pairs_of_build
    {instructions : Array Opcode}
    {map : BracketMap}
    (built : build instructions = .ok map) :
    map.Pairs instructions.toList := by
  have verdict := verdict_build instructions
  rw [built] at verdict
  cases verdict with
  | balanced isBalanced =>
      refine (describes_of_build built).pairs ?_ isBalanced
      rw [size_of_buildFrom built, Array.size_replicate, Array.length_toList]

/-- Building a bracket map decides balance.  It succeeds exactly for balanced
instructions, and then the map pairs the loop instructions as they are nested.
If it fails, it reports the first loop exit up to which more loops are closed
than opened; if there is none, it reports the first loop enter that nothing
closes. -/
theorem build_decides_balance (instructions : Array Opcode) :
    let opcodes := instructions.toList
    ((∃ map, build instructions = .ok map) ↔ IsBalanced opcodes) ∧
      (∀ map, build instructions = .ok map -> map.Pairs opcodes) ∧
      (∀ problem, build instructions = .error problem ->
        ((∃ index, IsOverclosed opcodes index) ->
          problem.payload = .unmatchedLoopExit ∧
            IsLeast {index | IsOverclosed opcodes index} problem.location) ∧
        ((¬∃ index, IsOverclosed opcodes index) ->
          problem.payload = .unmatchedLoopEnter ∧
            IsLeast {index | IsUnclosed opcodes index} problem.location)) := by
  intro opcodes
  have verdict := verdict_build instructions
  refine ⟨?_, fun map => pairs_of_build, ?_⟩
  · constructor
    · rintro ⟨map, built⟩
      rw [built] at verdict
      cases verdict with
      | balanced isBalanced => exact isBalanced
    · intro isBalanced
      cases outcome : build instructions with
      | ok map => exact ⟨map, rfl⟩
      | error problem =>
          exact absurd isBalanced (not_isBalanced_of_build outcome)
  · intro problem refused
    rw [refused] at verdict
    cases verdict with
    | unmatchedExit isFirst =>
        exact ⟨fun _ => ⟨rfl, isFirst⟩,
          fun noExit => absurd ⟨_, isFirst.1⟩ noExit⟩
    | unmatchedEnter noExit isFirst =>
        exact ⟨fun ⟨index, overclosed⟩ => absurd overclosed (noExit index),
          fun _ => ⟨rfl, isFirst⟩⟩

/-- Of two open loops the outer one is reported. -/
example : build #[.loopEnter, .loopEnter, .loopExit] =
    .error ⟨0, .unmatchedLoopEnter⟩ := rfl

end BracketMap
end SymbolicTape
