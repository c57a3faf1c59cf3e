import SymbolicTape.Program
import SymbolicTape.Proofs.Nesting

/-!
# All ways of matching loops find the same partners

A scan forward, a scan backward and a bracket map find the partner of a loop
instruction by different means.  Each of them is shown to find exactly the
partner that the nesting of the loops gives it.  A scan keeps the height above
its goal as its depth.  While a bracket map is built, the stack of open enters
is the stack of open loops, and all loops that were closed are paired.
-/

namespace SymbolicTape

namespace Brackets

section Scans

variable {instructions : List Opcode} {enter exit index depth : Nat}

/-- The instruction at the front of what is left, and what is left behind
it. -/
theorem of_drop_eq_cons
    {opcode : Opcode}
    {rest : List Opcode}
    (left : instructions.drop index = opcode :: rest) :
    instructions[index]? = some opcode ∧
      instructions.drop (index + 1) = rest := by
  constructor
  · rw [← List.head?_drop, left]
    rfl
  · rw [← List.tail_drop, left]
    rfl

/-- The instruction at the back of what comes before, and what comes before
it. -/
theorem of_reverse_take_eq_cons
    {opcode : Opcode}
    {rest : List Opcode}
    (before : (instructions.take index).reverse = opcode :: rest)
    (inBounds : index ≤ instructions.length) :
    0 < index ∧ instructions[index - 1]? = some opcode ∧
      (instructions.take (index - 1)).reverse = rest := by
  cases index with
  | zero => simp at before
  | succ index =>
      rw [List.take_add_one, List.getElem?_eq_getElem inBounds] at before
      simp only [Option.toList_some, List.reverse_append, List.reverse_cons,
        List.reverse_nil, List.nil_append, List.cons_append,
        List.cons.injEq] at before
      exact ⟨Nat.succ_pos index, by simp [before.1, Nat.lt_of_succ_le inBounds],
        before.2⟩

/-- A scan forward from inside an open loop finds its exit.  The depth is the
height above the enter of the loop. -/
theorem scanForward_eq_some_iff
    {rest : List Opcode}
    (left : instructions.drop index = rest)
    (isOpen : IsOpen instructions enter index)
    (depth_eq : height instructions index =
      height instructions enter + depth) :
    scanForward rest index depth = some exit ↔
      Partners instructions enter exit := by
  fun_induction scanForward rest index depth with
  | case1 index depth =>
      constructor
      · nofun
      · intro partners
        have ended := List.drop_eq_nil_iff.mp left
        have := isOpen.le_exit partners
        have := partners.exit_lt_length
        omega
  | case2 rest index depth inductionHypothesis =>
      obtain ⟨isEnter, left⟩ := of_drop_eq_cons left
      have rises := height_succ_of_enter isEnter
      exact inductionHypothesis left (isOpen.succ (by omega))
        (by push_cast; omega)
  | case3 index rest =>
      have above := isOpen.inside index isOpen.before (Nat.le_refl index)
      omega
  | case4 rest index =>
      obtain ⟨isExit, left⟩ := of_drop_eq_cons left
      have falls := height_succ_of_exit isExit
      have partners : Partners instructions enter index :=
        ⟨isOpen.before, isOpen.inside, by omega⟩
      constructor
      · intro found
        cases found
        exact partners
      · intro others
        rw [partners.exit_unique others]
  | case5 rest index depth inductionHypothesis =>
      obtain ⟨isExit, left⟩ := of_drop_eq_cons left
      have falls := height_succ_of_exit isExit
      exact inductionHypothesis left (isOpen.succ (by omega))
        (by push_cast at depth_eq ⊢; omega)
  | case6 opcode rest index depth notEnter atZero atOne atMore
      inductionHypothesis =>
      obtain ⟨fetched, left⟩ := of_drop_eq_cons left
      have notExit : opcode ≠ .loopExit := by
        match depth with
        | 0 => exact atZero rfl
        | 1 => exact atOne rfl
        | depth + 2 => exact atMore depth rfl
      have level := height_succ_of_plain
        (by rw [fetched]; simpa using notEnter)
        (by rw [fetched]; simpa using notExit)
      have above := isOpen.inside index isOpen.before (Nat.le_refl index)
      exact inductionHypothesis left (isOpen.succ (by omega)) (by omega)

/-- From an index up to a loop exit the height is above that behind the
exit. -/
structure IsInside
    (instructions : List Opcode)
    (index exit : Nat) : Prop where
  upTo : index ≤ exit
  above : ∀ between, index ≤ between -> between ≤ exit ->
    height instructions (exit + 1) < height instructions between

theorem isInside_self
    (isExit : instructions[exit]? = some .loopExit) :
    IsInside instructions exit exit := by
  refine ⟨Nat.le_refl exit, ?_⟩
  intro between after upTo
  obtain rfl : between = exit := by omega
  have := height_succ_of_exit isExit
  omega

theorem IsInside.pred
    (inside : IsInside instructions index exit)
    (lower : height instructions (exit + 1) <
      height instructions (index - 1)) :
    IsInside instructions (index - 1) exit := by
  have upTo := inside.upTo
  refine ⟨by omega, ?_⟩
  intro between after most
  rcases Nat.lt_or_eq_of_le after with later | rfl
  · exact inside.above between (by omega) most
  · exact lower

/-- Where the height is back to that behind the exit, the loop was entered. -/
theorem IsInside.partners
    (inside : IsInside instructions index exit)
    (positive : 0 < index)
    (level : height instructions (exit + 1) =
      height instructions (index - 1)) :
    Partners instructions (index - 1) exit := by
  have upTo := inside.upTo
  refine ⟨by omega, ?_, level⟩
  intro between after most
  rw [← level]
  exact inside.above between (by omega) most

/-- A scan backward from inside a loop that is closed at `exit` finds its enter.
The depth is the height above that behind the exit. -/
theorem scanBackward_eq_some_iff
    {before : List Opcode}
    (before_eq : (instructions.take index).reverse = before)
    (inBounds : index ≤ instructions.length)
    (inside : IsInside instructions index exit)
    (depth_eq : height instructions index =
      height instructions (exit + 1) + depth) :
    scanBackward before index depth = some enter ↔
      Partners instructions enter exit := by
  fun_induction scanBackward before index depth with
  | case1 index depth =>
      constructor
      · nofun
      · intro partners
        have atStart : index = 0 := by
          simp only [List.reverse_eq_nil_iff, List.take_eq_nil_iff] at before_eq
          rcases before_eq with atStart | empty
          · exact atStart
          · simpa [empty] using inBounds
        have := inside.above enter (by omega) (Nat.le_of_lt partners.before)
        have := partners.level
        omega
  | case2 rest index depth inductionHypothesis =>
      obtain ⟨positive, isExit, before_eq⟩ :=
        of_reverse_take_eq_cons before_eq inBounds
      have falls := height_succ_of_exit isExit
      rw [Nat.sub_add_cancel positive] at falls
      exact inductionHypothesis before_eq (by omega)
        (inside.pred (by omega)) (by push_cast; omega)
  | case3 index rest =>
      have := inside.above index (Nat.le_refl index) inside.upTo
      omega
  | case4 rest index =>
      obtain ⟨positive, isEnter, before_eq⟩ :=
        of_reverse_take_eq_cons before_eq inBounds
      have rises := height_succ_of_enter isEnter
      rw [Nat.sub_add_cancel positive] at rises
      have partners := inside.partners positive (by omega)
      constructor
      · intro found
        cases found
        exact partners
      · intro others
        rw [partners.enter_unique others]
  | case5 rest index depth inductionHypothesis =>
      obtain ⟨positive, isEnter, before_eq⟩ :=
        of_reverse_take_eq_cons before_eq inBounds
      have rises := height_succ_of_enter isEnter
      rw [Nat.sub_add_cancel positive] at rises
      exact inductionHypothesis before_eq (by omega)
        (inside.pred (by push_cast at depth_eq; omega))
        (by push_cast at depth_eq ⊢; omega)
  | case6 opcode rest index depth notExit atZero atOne atMore
      inductionHypothesis =>
      obtain ⟨positive, fetched, before_eq⟩ :=
        of_reverse_take_eq_cons before_eq inBounds
      have notEnter : opcode ≠ .loopEnter := by
        match depth with
        | 0 => exact atZero rfl
        | 1 => exact atOne rfl
        | depth + 2 => exact atMore depth rfl
      have level := height_succ_of_plain
        (by rw [fetched]; simpa using notEnter)
        (by rw [fetched]; simpa using notExit)
      rw [Nat.sub_add_cancel positive] at level
      have above := inside.above index (Nat.le_refl index) inside.upTo
      exact inductionHypothesis before_eq (by omega)
        (inside.pred (by omega)) (by omega)

/-- The scan from a loop enter finds its partner. -/
theorem scanForExit_eq_some_iff
    {instructions : Array Opcode}
    (isEnter : instructions[enter]? = some .loopEnter) :
    scanForExit instructions enter = some exit ↔
      Partners instructions.toList enter exit := by
  rw [← Array.getElem?_toList] at isEnter
  obtain ⟨inBounds, fetched⟩ := List.getElem?_eq_some_iff.mp isEnter
  unfold scanForExit
  rw [List.drop_eq_getElem_cons inBounds, fetched, scanForward]
  exact scanForward_eq_some_iff rfl (isOpen_self_succ isEnter)
    (height_succ_of_enter isEnter)

/-- The scan from a loop exit finds its partner. -/
theorem scanForEnter_eq_some_iff
    {instructions : Array Opcode}
    (isExit : instructions[exit]? = some .loopExit) :
    scanForEnter instructions exit = some enter ↔
      Partners instructions.toList enter exit := by
  rw [← Array.getElem?_toList] at isExit
  obtain ⟨inBounds, fetched⟩ := List.getElem?_eq_some_iff.mp isExit
  have length_eq : (instructions.toList.take (exit + 1)).length = exit + 1 :=
    List.length_take_of_le inBounds
  unfold scanForEnter
  dsimp only
  rw [length_eq, List.take_add_one, isExit, Option.toList_some,
    List.reverse_append, List.reverse_singleton, List.singleton_append,
    scanBackward, Nat.add_sub_cancel]
  exact scanBackward_eq_some_iff rfl (Nat.le_of_lt inBounds)
    (isInside_self isExit) (by have := height_succ_of_exit isExit; omega)

end Scans
end Brackets

/-! ## Bracket maps -/

namespace BracketMap

open Brackets

/-- A map that pairs exactly the partners and leaves no loop instruction
alone. -/
structure Describes (map : BracketMap) (instructions : List Opcode) : Prop where
  partner?_eq_some_iff : ∀ {first second},
    map.partner? first = some second ↔
      Partners instructions first second ∨ Partners instructions second first
  enters : ∀ {enter}, instructions[enter]? = some .loopEnter ->
    ∃ exit, Partners instructions enter exit
  exits : ∀ {exit}, instructions[exit]? = some .loopExit ->
    ∃ enter, Partners instructions enter exit

@[simp] theorem size_pair
    (partners : Array (Option Nat))
    (enter exit : Nat) :
    (pair partners enter exit).size = partners.size := by
  simp [pair]

/-- A pairing changes the partners of its two indices. -/
theorem getD_pair
    {partners : Array (Option Nat)}
    {enter exit : Nat}
    (enterInBounds : enter < partners.size)
    (exitInBounds : exit < partners.size)
    (index : Nat) :
    (pair partners enter exit).getD index none =
      if exit = index then some enter
      else if enter = index then some exit
      else partners.getD index none := by
  by_cases inBounds : index < partners.size
  · simp [pair, Array.getD, inBounds, Array.getElem_setIfInBounds]
  · have notExit : exit ≠ index := by omega
    have notEnter : enter ≠ index := by omega
    simp [pair, Array.getD, inBounds, notExit, notEnter]

/-- How far a bracket map has been built: the stack holds the open loops, the
loops that were closed are paired, and every exit has closed one. -/
structure Progress
    (instructions : List Opcode)
    (index : Nat)
    (opened : List Nat)
    (partners : Array (Option Nat)) : Prop where
  size_eq : partners.size = instructions.length
  stacked : Stacked instructions index opened
  paired : ∀ first second, partners.getD first none = some second ↔
    (Partners instructions first second ∨
        Partners instructions second first) ∧
      first < index ∧ second < index
  exits : ∀ exit, exit < index -> instructions[exit]? = some .loopExit ->
    ∃ enter, Partners instructions enter exit

section Progress

variable {instructions : List Opcode} {index : Nat} {opened : List Nat}
variable {partners : Array (Option Nat)}

theorem progress_start (instructions : Array Opcode) :
    Progress instructions.toList 0 []
      (Array.replicate instructions.size none) := by
  refine ⟨by simp, stacked_zero _, ?_, ?_⟩
  · intro first second
    simp [Array.getD]
  · intro exit before
    exact absurd before (Nat.not_lt_zero exit)

/-- Passing an instruction that closes no loop pairs nothing. -/
theorem Progress.pass
    {stack : List Nat}
    (progress : Progress instructions index opened partners)
    (stacked : Stacked instructions (index + 1) stack)
    (notExit : instructions[index]? ≠ some .loopExit) :
    Progress instructions (index + 1) stack partners := by
  refine ⟨progress.size_eq, stacked, ?_, ?_⟩
  · intro first second
    rw [progress.paired]
    constructor
    · rintro ⟨pair, firstBefore, secondBefore⟩
      exact ⟨pair, by omega, by omega⟩
    · rintro ⟨found | found, firstBefore, secondBefore⟩
      · have notHere : second ≠ index := fun here =>
          notExit (here ▸ found.isExit)
        have := found.before
        exact ⟨.inl found, by omega, by omega⟩
      · have notHere : first ≠ index := fun here =>
          notExit (here ▸ found.isExit)
        have := found.before
        exact ⟨.inr found, by omega, by omega⟩
  · intro exit before isExit
    rcases Nat.lt_succ_iff_lt_or_eq.mp before with earlier | rfl
    · exact progress.exits exit earlier isExit
    · exact absurd isExit notExit

/-- A loop exit is paired with the innermost open enter. -/
theorem Progress.exit
    {enter : Nat}
    (progress : Progress instructions index (enter :: opened) partners)
    (isExit : instructions[index]? = some .loopExit) :
    Progress instructions (index + 1) opened (pair partners enter index) := by
  have found := progress.stacked.partners isExit
  have exitInBounds : index < partners.size := by
    rw [progress.size_eq]
    exact found.exit_lt_length
  have enterInBounds : enter < partners.size :=
    found.before.trans exitInBounds
  refine ⟨by rw [size_pair, progress.size_eq], progress.stacked.exit isExit,
    ?_, ?_⟩
  · intro first second
    have before := found.before
    rw [getD_pair enterInBounds exitInBounds]
    by_cases isHere : index = first
    · subst isHere
      rw [if_pos rfl, Option.some_inj]
      constructor
      · rintro rfl
        exact ⟨.inr found, by omega, by omega⟩
      · rintro ⟨others | others, -, secondBefore⟩
        · have := others.before
          omega
        · exact found.enter_unique others
    · rw [if_neg isHere]
      by_cases isEnter : enter = first
      · subst isEnter
        rw [if_pos rfl, Option.some_inj]
        constructor
        · rintro rfl
          exact ⟨.inl found, by omega, by omega⟩
        · rintro ⟨others | others, -, -⟩
          · exact found.exit_unique others
          · cases others.isExit.symm.trans found.isEnter
      · rw [if_neg isEnter, progress.paired]
        constructor
        · rintro ⟨pair, firstBefore, secondBefore⟩
          exact ⟨pair, by omega, by omega⟩
        · rintro ⟨others | others, firstBefore, secondBefore⟩
          · have notHere : second ≠ index := by
              rintro rfl
              exact isEnter (found.enter_unique others)
            have := others.before
            exact ⟨.inl others, by omega, by omega⟩
          · have := others.before
            exact ⟨.inr others, by omega, by omega⟩
  · intro exit before isExit
    rcases Nat.lt_succ_iff_lt_or_eq.mp before with earlier | rfl
    · exact progress.exits exit earlier isExit
    · exact ⟨enter, found⟩

/-- At the end nothing is open, so everything is paired. -/
theorem Progress.describes
    (progress : Progress instructions index [] partners)
    (ended : instructions.length ≤ index) :
    Describes ⟨partners⟩ instructions := by
  refine ⟨?_, ?_, ?_⟩
  · intro first second
    unfold partner?
    rw [progress.paired, and_iff_left_iff_imp]
    rintro (found | found)
    · have := found.exit_lt_length
      have := found.before
      omega
    · have := found.exit_lt_length
      have := found.before
      omega
  · intro enter isEnter
    have inBounds := (List.getElem?_eq_some_iff.mp isEnter).1
    by_contra unclosed
    have isOpen : IsOpen instructions enter index :=
      isOpen_iff.mpr ⟨by omega, isEnter,
        fun exit partners => absurd ⟨exit, partners⟩ unclosed⟩
    cases (progress.stacked.mem_iff enter).mpr isOpen
  · intro exit isExit
    have inBounds := (List.getElem?_eq_some_iff.mp isExit).1
    exact progress.exits exit (by omega) isExit

/-- What is built from there on describes the instructions. -/
theorem Progress.describes_of_buildFrom
    {rest : List Opcode}
    {map : BracketMap}
    (progress : Progress instructions index opened partners)
    (left : instructions.drop index = rest)
    (built : buildFrom rest index opened partners = .ok map) :
    map.Describes instructions := by
  fun_induction buildFrom rest index opened partners with
  | case1 index opened partners closed =>
      cases built
      obtain rfl := List.getLast?_eq_none_iff.mp closed
      exact progress.describes (List.drop_eq_nil_iff.mp left)
  | case2 index opened partners outermost stillOpen => cases built
  | case3 rest index opened partners inductionHypothesis =>
      obtain ⟨isEnter, left⟩ := of_drop_eq_cons left
      refine inductionHypothesis (progress.pass ?_ ?_) left built
      · exact progress.stacked.enter isEnter
      · rw [isEnter]
        nofun
  | case4 rest index partners => cases built
  | case5 rest index innermost opened partners inductionHypothesis =>
      obtain ⟨isExit, left⟩ := of_drop_eq_cons left
      exact inductionHypothesis (progress.exit isExit) left built
  | case6 opcode rest index opened partners notEnter atNone atSome
      inductionHypothesis =>
      obtain ⟨fetched, left⟩ := of_drop_eq_cons left
      have notExit : opcode ≠ .loopExit := by
        match opened with
        | [] => exact atNone rfl
        | innermost :: opened => exact atSome innermost opened rfl
      have plain : instructions[index]? ≠ some .loopExit := by
        rw [fetched]
        simpa using notExit
      refine inductionHypothesis (progress.pass ?_ plain) left built
      exact progress.stacked.plain (by rw [fetched]; simpa using notEnter)
        plain

end Progress

/-- A bracket map describes the instructions that it was built for. -/
theorem describes_of_build
    {instructions : Array Opcode}
    {map : BracketMap}
    (built : build instructions = .ok map) :
    map.Describes instructions.toList :=
  (progress_start instructions).describes_of_buildFrom rfl built

end BracketMap

namespace Program

open Brackets

theorem getElem?_toList_instructions (program : Program) (index : Nat) :
    program.instructions.toList[index]? = program.instruction? index :=
  Array.getElem?_toList

/-- The bracket map of a program, if it has one, was built for it. -/
def WellMatched (program : Program) : Prop :=
  ∀ map, program.brackets = some map ->
    BracketMap.build program.instructions = .ok map

/-- A program whose loops are matched when it is loaded has a bracket map, and
its text can be loaded without one. -/
theorem of_load_precomputed
    {source : String}
    {program : Program}
    (loaded : load source .precomputed = .ok program) :
    (∃ map, BracketMap.build (decode source) = .ok map ∧
      program = ⟨decode source, some map⟩) ∧
      load source .lazy = .ok ⟨decode source, none⟩ := by
  unfold load at loaded ⊢
  dsimp only at loaded ⊢
  split at loaded
  · cases loaded
  · rename_i fits
    rw [if_neg fits]
    refine ⟨?_, rfl⟩
    cases built : BracketMap.build (decode source) with
    | error problem =>
        rw [built] at loaded
        cases loaded
    | ok map =>
        rw [built] at loaded
        cases loaded
        exact ⟨map, rfl, rfl⟩

theorem wellMatched_of_load
    {source : String}
    {matching : Matching}
    {program : Program}
    (loaded : load source matching = .ok program) :
    program.WellMatched := by
  intro map brackets_eq
  cases matching with
  | precomputed =>
      obtain ⟨other, built, rfl⟩ := (of_load_precomputed loaded).1
      cases brackets_eq
      exact built
  | lazy =>
      unfold load at loaded
      dsimp only at loaded
      split at loaded
      · cases loaded
      · cases loaded
        cases brackets_eq

section WellMatched

variable {program : Program} {enter exit : Nat}

/-- The exit that a program finds for a loop enter is its partner. -/
theorem WellMatched.matchingExit?_eq_some_iff
    (matched : program.WellMatched) :
    program.matchingExit? enter = some exit ↔
      Partners program.instructions.toList enter exit := by
  unfold matchingExit?
  by_cases isEnter : program.instruction? enter = some .loopEnter
  · rw [if_pos isEnter]
    cases brackets_eq : program.brackets with
    | none => exact scanForExit_eq_some_iff isEnter
    | some map =>
        have described :=
          BracketMap.describes_of_build (matched map brackets_eq)
        dsimp only
        rw [described.partner?_eq_some_iff, or_iff_left]
        intro others
        rw [← getElem?_toList_instructions] at isEnter
        cases others.isExit.symm.trans isEnter
  · rw [if_neg isEnter]
    constructor
    · nofun
    · intro partners
      rw [← getElem?_toList_instructions] at isEnter
      exact absurd partners.isEnter isEnter

/-- The enter that a program finds for a loop exit is its partner. -/
theorem WellMatched.matchingEnter?_eq_some_iff
    (matched : program.WellMatched) :
    program.matchingEnter? exit = some enter ↔
      Partners program.instructions.toList enter exit := by
  unfold matchingEnter?
  by_cases isExit : program.instruction? exit = some .loopExit
  · rw [if_pos isExit]
    cases brackets_eq : program.brackets with
    | none => exact scanForEnter_eq_some_iff isExit
    | some map =>
        have described :=
          BracketMap.describes_of_build (matched map brackets_eq)
        dsimp only
        rw [described.partner?_eq_some_iff, or_iff_right]
        intro others
        rw [← getElem?_toList_instructions] at isExit
        cases isExit.symm.trans others.isEnter
  · rw [if_neg isExit]
    constructor
    · nofun
    · intro partners
      rw [← getElem?_toList_instructions] at isExit
      exact absurd partners.isExit isExit

end WellMatched

/-- In a program whose loops were matched when it was loaded, every loop
instruction has its partner. -/
theorem describes_of_load
    {source : String}
    {program : Program}
    (loaded : load source .precomputed = .ok program) :
    ∃ map : BracketMap, map.Describes program.instructions.toList := by
  obtain ⟨map, built, rfl⟩ := (of_load_precomputed loaded).1
  exact ⟨map, BracketMap.describes_of_build built⟩

/-- A program whose loops were matched when it was loaded has an exit for every
loop enter. -/
theorem exists_matchingExit?_of_load
    {source : String}
    {program : Program}
    (loaded : load source .precomputed = .ok program)
    {enter : Nat}
    (isEnter : program.instruction? enter = some .loopEnter) :
    ∃ exit, program.matchingExit? enter = some exit := by
  rw [← getElem?_toList_instructions] at isEnter
  obtain ⟨map, described⟩ := describes_of_load loaded
  obtain ⟨exit, partners⟩ := described.enters isEnter
  exact ⟨exit,
    (wellMatched_of_load loaded).matchingExit?_eq_some_iff.mpr partners⟩

/-- Likewise it has an enter for every loop exit. -/
theorem exists_matchingEnter?_of_load
    {source : String}
    {program : Program}
    (loaded : load source .precomputed = .ok program)
    {exit : Nat}
    (isExit : program.instruction? exit = some .loopExit) :
    ∃ enter, program.matchingEnter? exit = some enter := by
  rw [← getElem?_toList_instructions] at isExit
  obtain ⟨map, described⟩ := describes_of_load loaded
  obtain ⟨enter, partners⟩ := described.exits isExit
  exact ⟨enter,
    (wellMatched_of_load loaded).matchingEnter?_eq_some_iff.mpr partners⟩

end Program
end SymbolicTape
