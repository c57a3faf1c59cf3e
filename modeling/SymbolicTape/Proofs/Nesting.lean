import Mathlib.Data.List.Sort
import Mathlib.Data.Nat.Find
import SymbolicTape.Opcode

/-!
# Nesting of loops

The height of an index is the number of loop enters before it minus the number
of loop exits before it.  A loop enter is open as long as the height stays above
the height of the enter, and its partner is the exit at which the height first
comes back.  This makes sense for every sequence of instructions, balanced or
not, and it treats both directions alike: an enter has at most one partner, an
exit has at most one partner, and loops do not cross.

The loops that are open at an index form a stack.  What passing an instruction,
skipping a loop and repeating a loop do to this stack is said by the lemmas on
`Brackets.Stacked`.
-/

namespace SymbolicTape

/-- By how much an instruction changes the height. -/
def Opcode.rise : Opcode -> Int
  | .loopEnter => 1
  | .loopExit => -1
  | _ => 0

namespace Brackets

/-- The number of loop enters before an index minus that of loop exits. -/
def height (instructions : List Opcode) (index : Nat) : Int :=
  (instructions.take index).foldl (fun level opcode => level + opcode.rise) 0

section Height

variable {instructions : List Opcode} {index : Nat}

theorem height_succ (instructions : List Opcode) (index : Nat) :
    height instructions (index + 1) =
      height instructions index
        + (instructions[index]?.map Opcode.rise).getD 0 := by
  unfold height
  rw [List.take_add_one, List.foldl_append]
  cases instructions[index]? <;> simp

theorem height_succ_of_enter
    (isEnter : instructions[index]? = some .loopEnter) :
    height instructions (index + 1) = height instructions index + 1 := by
  rw [height_succ, isEnter]
  rfl

theorem height_succ_of_exit
    (isExit : instructions[index]? = some .loopExit) :
    height instructions (index + 1) = height instructions index - 1 := by
  rw [height_succ, isExit]
  rfl

theorem height_succ_of_plain
    (notEnter : instructions[index]? ≠ some .loopEnter)
    (notExit : instructions[index]? ≠ some .loopExit) :
    height instructions (index + 1) = height instructions index := by
  rw [height_succ]
  cases fetched : instructions[index]? with
  | none => simp
  | some opcode =>
      cases opcode with
      | loopEnter => exact absurd fetched notEnter
      | loopExit => exact absurd fetched notExit
      | _ => simp [Opcode.rise]

/-- Only a loop enter raises the height. -/
theorem isEnter_of_height_lt
    (rises : height instructions index < height instructions (index + 1)) :
    instructions[index]? = some .loopEnter := by
  by_contra notEnter
  by_cases isExit : instructions[index]? = some .loopExit
  · have := height_succ_of_exit isExit
    omega
  · have := height_succ_of_plain notEnter isExit
    omega

/-- Only a loop exit lowers the height, and it does so by one. -/
theorem isExit_of_height_lt
    (falls : height instructions (index + 1) < height instructions index) :
    instructions[index]? = some .loopExit ∧
      height instructions (index + 1) = height instructions index - 1 := by
  by_cases isExit : instructions[index]? = some .loopExit
  · exact ⟨isExit, height_succ_of_exit isExit⟩
  · by_cases isEnter : instructions[index]? = some .loopEnter
    · have := height_succ_of_enter isEnter
      omega
    · have := height_succ_of_plain isEnter isExit
      omega

end Height

/-! ## Partners -/

/-- A loop enter and the loop exit that closes it: between them the height is
above that of the enter, and after the exit it is back. -/
structure Partners
    (instructions : List Opcode)
    (enter exit : Nat) : Prop where
  before : enter < exit
  inside : ∀ index, enter < index -> index ≤ exit ->
    height instructions enter < height instructions index
  level : height instructions (exit + 1) = height instructions enter

/-- A loop that was entered before an index and is not closed before it. -/
structure IsOpen
    (instructions : List Opcode)
    (enter index : Nat) : Prop where
  before : enter < index
  inside : ∀ between, enter < between -> between ≤ index ->
    height instructions enter < height instructions between

section Partners

variable {instructions : List Opcode} {enter exit index : Nat}

theorem Partners.isOpen (partners : Partners instructions enter exit) :
    IsOpen instructions enter exit :=
  ⟨partners.before, partners.inside⟩

theorem IsOpen.isEnter (isOpen : IsOpen instructions enter index) :
    instructions[enter]? = some .loopEnter :=
  isEnter_of_height_lt
    (isOpen.inside (enter + 1) (Nat.lt_succ_self enter) isOpen.before)

theorem Partners.isEnter (partners : Partners instructions enter exit) :
    instructions[enter]? = some .loopEnter :=
  partners.isOpen.isEnter

theorem Partners.isExit (partners : Partners instructions enter exit) :
    instructions[exit]? = some .loopExit := by
  have above := partners.inside exit partners.before (Nat.le_refl exit)
  rw [← partners.level] at above
  exact (isExit_of_height_lt above).1

/-- Partners are inside the sequence. -/
theorem Partners.exit_lt_length
    (partners : Partners instructions enter exit) :
    exit < instructions.length :=
  (List.getElem?_eq_some_iff.mp partners.isExit).1

/-- A loop that is open at an index was not closed before. -/
theorem IsOpen.le_exit
    (isOpen : IsOpen instructions enter index)
    (partners : Partners instructions enter exit) :
    index ≤ exit := by
  by_contra closed
  have above := isOpen.inside (exit + 1) (by have := partners.before; omega)
    (by omega)
  have level := partners.level
  omega

/-- An enter has at most one partner. -/
theorem Partners.exit_unique
    {other : Nat}
    (partners : Partners instructions enter exit)
    (others : Partners instructions enter other) :
    exit = other :=
  Nat.le_antisymm (partners.isOpen.le_exit others)
    (others.isOpen.le_exit partners)

/-- An exit has at most one partner. -/
theorem Partners.enter_unique
    {other : Nat}
    (partners : Partners instructions enter exit)
    (others : Partners instructions other exit) :
    enter = other := by
  have level := partners.level
  have otherLevel := others.level
  by_contra differ
  rcases Nat.lt_or_gt_of_ne differ with earlier | later
  · have := partners.inside other earlier (Nat.le_of_lt others.before)
    omega
  · have := others.inside enter later (Nat.le_of_lt partners.before)
    omega

/-! ## Open loops from one index to the next -/

theorem isOpen_self_succ
    (isEnter : instructions[enter]? = some .loopEnter) :
    IsOpen instructions enter (enter + 1) := by
  refine ⟨Nat.lt_succ_self enter, ?_⟩
  intro between after upTo
  obtain rfl : between = enter + 1 := by omega
  have := height_succ_of_enter isEnter
  omega

/-- An open loop stays open as long as the height stays above it. -/
theorem IsOpen.succ
    (isOpen : IsOpen instructions enter index)
    (above : height instructions enter < height instructions (index + 1)) :
    IsOpen instructions enter (index + 1) := by
  refine ⟨Nat.lt_succ_of_lt isOpen.before, ?_⟩
  intro between after upTo
  rcases Nat.lt_succ_iff_lt_or_eq.mp (Nat.lt_succ_of_le upTo) with
    earlier | rfl
  · exact isOpen.inside between after (Nat.le_of_lt_succ earlier)
  · exact above

theorem IsOpen.of_le
    {earlier : Nat}
    (isOpen : IsOpen instructions enter index)
    (before : enter < earlier)
    (upTo : earlier ≤ index) :
    IsOpen instructions enter earlier :=
  ⟨before, fun between after most =>
    isOpen.inside between after (most.trans upTo)⟩

/-- An instruction leaves an open loop open or closes it. -/
theorem IsOpen.succ_or_partners
    (isOpen : IsOpen instructions enter index) :
    IsOpen instructions enter (index + 1) ∨
      Partners instructions enter index := by
  have above := isOpen.inside index isOpen.before (Nat.le_refl index)
  by_cases stays :
      height instructions enter < height instructions (index + 1)
  · exact .inl (isOpen.succ stays)
  · have falls := (isExit_of_height_lt
      (by omega : height instructions (index + 1) < _)).2
    exact .inr ⟨isOpen.before, isOpen.inside, by omega⟩

/-- A loop is open exactly if it was entered and its exit is yet to come. -/
theorem isOpen_iff :
    IsOpen instructions enter index ↔
      enter < index ∧ instructions[enter]? = some .loopEnter ∧
        ∀ exit, Partners instructions enter exit -> index ≤ exit := by
  constructor
  · intro isOpen
    exact ⟨isOpen.before, isOpen.isEnter, fun exit => isOpen.le_exit⟩
  · rintro ⟨before, isEnter, unclosed⟩
    induction index, (Nat.succ_le_of_lt before) using Nat.le_induction with
    | base => exact isOpen_self_succ isEnter
    | succ index entered inductionHypothesis =>
        have isOpen := inductionHypothesis entered fun exit partners =>
          Nat.le_of_succ_le (unclosed exit partners)
        rcases isOpen.succ_or_partners with stays | partners
        · exact stays
        · exact absurd (unclosed index partners) (Nat.not_succ_le_self index)

/-- Where the height has risen, some loop has been entered and is open. -/
theorem exists_isOpen
    {start : Nat}
    (before : start < index)
    (rises : height instructions start < height instructions index) :
    ∃ enter, start ≤ enter ∧ IsOpen instructions enter index := by
  -- The enter is the last index from which on the height stays above.
  let isLower (place : Nat) : Prop :=
    height instructions place < height instructions index
  have bounded : start ≤ index - 1 := by omega
  refine ⟨Nat.findGreatest isLower (index - 1),
    Nat.le_findGreatest bounded rises, ?_, ?_⟩
  · have := Nat.findGreatest_le (P := isLower) (index - 1)
    omega
  · have lower : isLower (Nat.findGreatest isLower (index - 1)) :=
      Nat.findGreatest_spec bounded rises
    intro between after upTo
    rcases Nat.lt_or_eq_of_le upTo with earlier | rfl
    · have notLower : ¬isLower between :=
        Nat.findGreatest_is_greatest after (by omega)
      exact lower.trans_le (Int.not_lt.mp notLower)
    · exact lower

/-- A loop that is open in front of another one is open behind it. -/
theorem Partners.isOpen_after
    {other : Nat}
    (partners : Partners instructions enter exit)
    (isOpen : IsOpen instructions other enter) :
    IsOpen instructions other (exit + 1) := by
  have level := partners.level
  have above := isOpen.inside enter isOpen.before (Nat.le_refl enter)
  refine ⟨by have := isOpen.before; have := partners.before; omega, ?_⟩
  intro between after upTo
  rcases Nat.lt_or_ge enter between with inLoop | upToLoop
  · rcases Nat.lt_or_eq_of_le upTo with inside | rfl
    · exact above.trans
        (partners.inside between inLoop (Nat.le_of_lt_succ inside))
    · omega
  · exact isOpen.inside between after upToLoop

/-- A loop that is open behind another one was open in front of it. -/
theorem Partners.isOpen_before
    {other : Nat}
    (partners : Partners instructions enter exit)
    (isOpen : IsOpen instructions other (exit + 1)) :
    IsOpen instructions other enter := by
  have level := partners.level
  have above := isOpen.inside (exit + 1) isOpen.before (Nat.le_refl _)
  have before : other < enter := by
    by_contra notBefore
    rcases Nat.lt_or_eq_of_le (Nat.not_lt.mp notBefore) with later | rfl
    · have := partners.inside other later (Nat.le_of_lt_succ isOpen.before)
      omega
    · omega
  have := partners.before
  exact isOpen.of_le before (by omega)

end Partners

/-! ## The stack of open loops -/

/-- A stack that holds the loops that are open at an index, innermost first. -/
structure Stacked
    (instructions : List Opcode)
    (index : Nat)
    (stack : List Nat) : Prop where
  decreasing : stack.SortedGT
  mem_iff : ∀ enter, enter ∈ stack ↔ IsOpen instructions enter index

section Stacked

variable {instructions : List Opcode} {index : Nat} {stack : List Nat}

theorem stacked_zero (instructions : List Opcode) :
    Stacked instructions 0 [] := by
  refine ⟨List.Pairwise.nil.sortedGT, ?_⟩
  intro enter
  constructor
  · nofun
  · intro isOpen
    exact absurd isOpen.before (Nat.not_lt_zero enter)

/-- An instruction that is no loop instruction opens and closes nothing. -/
theorem Stacked.plain
    (stacked : Stacked instructions index stack)
    (notEnter : instructions[index]? ≠ some .loopEnter)
    (notExit : instructions[index]? ≠ some .loopExit) :
    Stacked instructions (index + 1) stack := by
  have level := height_succ_of_plain notEnter notExit
  refine ⟨stacked.decreasing, ?_⟩
  intro enter
  rw [stacked.mem_iff]
  constructor
  · intro isOpen
    have above := isOpen.inside index isOpen.before (Nat.le_refl index)
    exact isOpen.succ (by omega)
  · intro isOpen
    have differ : enter ≠ index := by
      rintro rfl
      exact notEnter isOpen.isEnter
    have before := isOpen.before
    exact isOpen.of_le (by omega) (Nat.le_succ index)

/-- A loop enter opens a loop. -/
theorem Stacked.enter
    (stacked : Stacked instructions index stack)
    (isEnter : instructions[index]? = some .loopEnter) :
    Stacked instructions (index + 1) (index :: stack) := by
  have rises := height_succ_of_enter isEnter
  constructor
  · rw [List.sortedGT_iff_pairwise, List.pairwise_cons]
    refine ⟨?_, stacked.decreasing.pairwise⟩
    intro enter member
    exact ((stacked.mem_iff enter).mp member).before
  · intro enter
    rw [List.mem_cons, stacked.mem_iff]
    constructor
    · rintro (rfl | isOpen)
      · exact isOpen_self_succ isEnter
      · have above := isOpen.inside index isOpen.before (Nat.le_refl index)
        exact isOpen.succ (by omega)
    · intro isOpen
      rcases Nat.lt_succ_iff_lt_or_eq.mp isOpen.before with before | same
      · exact .inr (isOpen.of_le before (Nat.le_succ index))
      · exact .inl same

/-- A loop exit closes the innermost open loop. -/
theorem Stacked.partners
    {enter : Nat}
    (stacked : Stacked instructions index (enter :: stack))
    (isExit : instructions[index]? = some .loopExit) :
    Partners instructions enter index := by
  have isOpen := (stacked.mem_iff enter).mp List.mem_cons_self
  rcases isOpen.succ_or_partners with stays | partners
  · -- A loop that stays open has another one open inside it.
    have entered := height_succ_of_enter isOpen.isEnter
    have falls := height_succ_of_exit isExit
    have above := stays.inside (index + 1) stays.before (Nat.le_refl _)
    have before := isOpen.before
    have notAdjacent : enter + 1 ≠ index := by
      rintro rfl
      omega
    obtain ⟨inner, after, innerOpen⟩ :=
      @exists_isOpen instructions index (enter + 1) (by omega) (by omega)
    have member := (stacked.mem_iff inner).mpr innerOpen
    rcases List.mem_cons.mp member with rfl | outer
    · omega
    · have := (List.pairwise_cons.mp stacked.decreasing.pairwise).1 inner outer
      omega
  · exact partners

/-- No loop is closed where none is open. -/
theorem Stacked.not_partners
    {enter : Nat}
    (stacked : Stacked instructions index []) :
    ¬Partners instructions enter index := by
  intro partners
  have member := (stacked.mem_iff enter).mpr partners.isOpen
  cases member

/-- After the exit of a loop the same loops are open as before its enter. -/
theorem Partners.stacked_iff
    {enter exit : Nat}
    (partners : Partners instructions enter exit) :
    Stacked instructions (exit + 1) stack ↔
      Stacked instructions enter stack := by
  have sameOpen (other : Nat) :
      IsOpen instructions other (exit + 1) ↔ IsOpen instructions other enter :=
    ⟨fun isOpen => partners.isOpen_before isOpen,
      fun isOpen => partners.isOpen_after isOpen⟩
  constructor
  · intro stacked
    exact ⟨stacked.decreasing, fun other => by
      rw [stacked.mem_iff, sameOpen]⟩
  · intro stacked
    exact ⟨stacked.decreasing, fun other => by
      rw [stacked.mem_iff, sameOpen]⟩

/-- Behind a loop exit the loop that it closes is not open any more. -/
theorem Stacked.exit
    {enter : Nat}
    (stacked : Stacked instructions index (enter :: stack))
    (isExit : instructions[index]? = some .loopExit) :
    Stacked instructions (index + 1) stack := by
  have partners := stacked.partners isExit
  obtain ⟨isTop, decreasing⟩ :=
    List.pairwise_cons.mp stacked.decreasing.pairwise
  refine ⟨decreasing.sortedGT, ?_⟩
  intro other
  constructor
  · intro member
    have isOpen := (stacked.mem_iff other).mp (List.mem_cons_of_mem _ member)
    rcases isOpen.succ_or_partners with stays | closed
    · exact stays
    · have := isTop other member
      have := closed.enter_unique partners
      omega
  · intro stays
    have notClosed : other ≠ enter := by
      rintro rfl
      exact Nat.not_succ_le_self index (stays.le_exit partners)
    have notHere : other ≠ index := by
      rintro rfl
      cases isExit.symm.trans stays.isEnter
    have before := stays.before
    have isOpen := stays.of_le (by omega : other < index) (Nat.le_succ index)
    have onStack := (stacked.mem_iff other).mpr isOpen
    rcases List.mem_cons.mp onStack with same | member
    · exact absurd same notClosed
    · exact member

/-- At the start of the body of a loop the same loops are open as at its
exit. -/
theorem Stacked.repeat
    {enter : Nat}
    (stacked : Stacked instructions index (enter :: stack))
    (isExit : instructions[index]? = some .loopExit) :
    Stacked instructions (enter + 1) (enter :: stack) := by
  have partners := stacked.partners isExit
  have atEnter := partners.stacked_iff.mp (stacked.exit isExit)
  exact atEnter.enter partners.isEnter

end Stacked
end Brackets
end SymbolicTape
