import SymbolicTape.Proofs.Brackets

/-!
# Programs without their comments

If the comments of a program text are deleted, every instruction moves to a
smaller index, which is its rank: the number of instructions in front of it that
are not comments.  Comments do not change the height of a loop.  So the partners
of the loops, whether they are found when a program is loaded or later, and the
errors with which loading fails are the same up to the rank.
-/

namespace SymbolicTape

/-! ## Ranks -/

/-- Whether an instruction is not a comment. -/
def Opcode.acts : Opcode -> Bool
  | .comment _ => false
  | _ => true

/-- The number of instructions before an index that are not comments. -/
def rank (instructions : List Opcode) (index : Nat) : Nat :=
  (instructions.take index).countP Opcode.acts

/-- The instruction at an index is not a comment. -/
def ActsAt (instructions : List Opcode) (index : Nat) : Prop :=
  ∃ opcode, instructions[index]? = some opcode ∧ opcode.acts = true

section Rank

variable {instructions : List Opcode} {index other : Nat}

theorem rank_succ (instructions : List Opcode) (index : Nat) :
    rank instructions (index + 1) =
      rank instructions index
        + instructions[index]?.toList.countP Opcode.acts := by
  unfold rank
  rw [List.take_add_one, List.countP_append]

theorem ActsAt.rank_succ (acts : ActsAt instructions index) :
    rank instructions (index + 1) = rank instructions index + 1 := by
  obtain ⟨opcode, fetched, isAction⟩ := acts
  rw [SymbolicTape.rank_succ, fetched]
  simp [isAction]

theorem rank_succ_of_not_actsAt (idle : ¬ActsAt instructions index) :
    rank instructions (index + 1) = rank instructions index := by
  rw [SymbolicTape.rank_succ]
  cases fetched : instructions[index]? with
  | none => simp
  | some opcode =>
      have isComment : opcode.acts ≠ true := fun acts =>
        idle ⟨opcode, fetched, acts⟩
      simp [isComment]

theorem rank_mono (instructions : List Opcode) :
    Monotone (rank instructions) := by
  intro index other atMost
  exact (List.take_sublist_take_left atMost).countP_le

/-- What comes after an instruction has a larger rank. -/
theorem ActsAt.rank_lt
    (acts : ActsAt instructions index)
    (before : index < other) :
    rank instructions index < rank instructions other := by
  have further := rank_mono instructions (Nat.succ_le_of_lt before)
  rw [Nat.succ_eq_add_one, acts.rank_succ] at further
  exact further

theorem lt_of_rank_lt
    (before : rank instructions index < rank instructions other) :
    index < other := by
  by_contra notBefore
  have further := rank_mono instructions (Nat.le_of_not_lt notBefore)
  omega

/-- Every smaller rank is the rank of an earlier instruction. -/
theorem exists_actsAt_of_lt_rank
    {place : Nat}
    (before : place < rank instructions index) :
    ∃ earlier < index,
      ActsAt instructions earlier ∧ rank instructions earlier = place := by
  induction index with
  | zero => simp [rank] at before
  | succ index inductionHypothesis =>
      by_cases here : place < rank instructions index
      · obtain ⟨earlier, isEarlier, acts, rank_eq⟩ := inductionHypothesis here
        exact ⟨earlier, Nat.lt_succ_of_lt isEarlier, acts, rank_eq⟩
      · by_cases acts : ActsAt instructions index
        · rw [acts.rank_succ] at before
          exact ⟨index, Nat.lt_succ_self index, acts, by omega⟩
        · rw [rank_succ_of_not_actsAt acts] at before
          exact absurd before here

/-- The end has the largest rank. -/
theorem rank_of_length_le (ended : instructions.length ≤ index) :
    rank instructions index = (instructions.filter Opcode.acts).length := by
  unfold rank
  rw [List.take_of_length_le ended, List.countP_eq_length_filter]

/-- An instruction is found at its rank. -/
theorem getElem?_rank
    {opcode : Opcode}
    (fetched : instructions[index]? = some opcode)
    (isAction : opcode.acts = true) :
    (instructions.filter Opcode.acts)[rank instructions index]? =
      some opcode := by
  have split_eq : instructions.filter Opcode.acts =
      (instructions.take index).filter Opcode.acts
        ++ (instructions.drop index).filter Opcode.acts := by
    rw [← List.filter_append, List.take_append_drop]
  have length_eq : ((instructions.take index).filter Opcode.acts).length =
      rank instructions index :=
    List.countP_eq_length_filter.symm
  obtain ⟨inBounds, here⟩ := List.getElem?_eq_some_iff.mp fetched
  rw [split_eq, ← length_eq, List.getElem?_append_right (Nat.le_refl _),
    Nat.sub_self, List.drop_eq_getElem_cons inBounds, here,
    List.filter_cons_of_pos isAction]
  rfl

end Rank

/-! ## Loops -/

namespace Brackets

section Loops

variable {instructions : List Opcode} {index enter exit : Nat}

theorem actsAt_of_enter (isEnter : instructions[enter]? = some .loopEnter) :
    ActsAt instructions enter :=
  ⟨.loopEnter, isEnter, rfl⟩

theorem actsAt_of_exit (isExit : instructions[exit]? = some .loopExit) :
    ActsAt instructions exit :=
  ⟨.loopExit, isExit, rfl⟩

/-- Comments do not change the height. -/
theorem height_rank (instructions : List Opcode) (index : Nat) :
    height (instructions.filter Opcode.acts) (rank instructions index) =
      height instructions index := by
  induction index with
  | zero => rfl
  | succ index inductionHypothesis =>
      by_cases acts : ActsAt instructions index
      · obtain ⟨opcode, fetched, isAction⟩ := id acts
        rw [acts.rank_succ, height_succ, inductionHypothesis,
          getElem?_rank fetched isAction, height_succ, fetched]
      · rw [rank_succ_of_not_actsAt acts, inductionHypothesis, height_succ]
        cases fetched : instructions[index]? with
        | none => simp
        | some opcode =>
            cases opcode with
            | comment character => simp [Opcode.rise]
            | _ => exact absurd ⟨_, fetched, rfl⟩ acts

/-- A loop has its partner at the rank of its partner. -/
theorem partners_rank_iff
    (isEnter : ActsAt instructions enter)
    (isExit : ActsAt instructions exit) :
    Partners (instructions.filter Opcode.acts) (rank instructions enter)
        (rank instructions exit) ↔
      Partners instructions enter exit := by
  have level_iff :
      height (instructions.filter Opcode.acts) (rank instructions exit + 1) =
          height (instructions.filter Opcode.acts) (rank instructions enter) ↔
        height instructions (exit + 1) = height instructions enter := by
    rw [← isExit.rank_succ, height_rank, height_rank]
  constructor
  · rintro ⟨before, inside, level⟩
    refine ⟨lt_of_rank_lt before, ?_, level_iff.mp level⟩
    intro index after upTo
    rw [← height_rank, ← height_rank instructions index]
    exact inside _ (isEnter.rank_lt after) (rank_mono instructions upTo)
  · rintro ⟨before, inside, level⟩
    refine ⟨isEnter.rank_lt before, ?_, level_iff.mpr level⟩
    intro place after upTo
    rw [height_rank]
    -- An index of this rank lies between the enter and the exit.
    rcases Nat.lt_or_eq_of_le upTo with earlier | rfl
    · obtain ⟨index, isBefore, -, rfl⟩ := exists_actsAt_of_lt_rank earlier
      rw [height_rank]
      exact inside index (lt_of_rank_lt after) (Nat.le_of_lt isBefore)
    · rw [height_rank]
      exact inside exit before (Nat.le_refl exit)

end Loops
end Brackets

namespace BracketMap

open Brackets

/-- What deleting the comments does to a bracket map, or to the reason why there
is none: the reason moves to the rank of its location. -/
inductive Relocates (instructions : List Opcode) :
    (built strippedBuilt : Except (Located LoadError) BracketMap) -> Prop
  | ok
      {map strippedMap : BracketMap} :
      Relocates instructions (.ok map) (.ok strippedMap)
  | error
      {location : Nat}
      {reason : LoadError}
      (acts : ActsAt instructions location) :
      Relocates instructions (.error ⟨location, reason⟩)
        (.error ⟨rank instructions location, reason⟩)

/-- Building a bracket map passes over comments, and it keeps the ranks of the
open loops. -/
theorem relocates_buildFrom
    {instructions rest : List Opcode}
    {index : Nat}
    {opened : List Nat}
    (partners strippedPartners : Array (Option Nat))
    (left : instructions.drop index = rest)
    (entered : ∀ enter ∈ opened, ActsAt instructions enter) :
    Relocates instructions (buildFrom rest index opened partners)
      (buildFrom (rest.filter Opcode.acts) (rank instructions index)
        (opened.map (rank instructions)) strippedPartners) := by
  induction rest generalizing index opened partners strippedPartners with
  | nil =>
      rw [List.filter_nil, buildFrom, buildFrom, List.getLast?_map]
      cases outermost : opened.getLast? with
      | none => exact .ok
      | some enter =>
          exact .error (entered enter (List.mem_of_getLast? outermost))
  | cons opcode rest inductionHypothesis =>
      obtain ⟨fetched, behind⟩ := of_drop_eq_cons left
      by_cases isAction : opcode.acts = true
      · have acts : ActsAt instructions index := ⟨opcode, fetched, isAction⟩
        rw [List.filter_cons_of_pos isAction]
        cases opcode with
        | loopEnter =>
            have deeper := inductionHypothesis partners strippedPartners behind
              (List.forall_mem_cons.mpr ⟨acts, entered⟩)
            rwa [acts.rank_succ] at deeper
        | loopExit =>
            cases opened with
            | nil => exact .error acts
            | cons enter opened =>
                have closed := inductionHypothesis
                  (pair partners enter index)
                  (pair strippedPartners (rank instructions enter)
                    (rank instructions index))
                  behind (List.forall_mem_cons.mp entered).2
                rwa [acts.rank_succ] at closed
        | comment character => cases isAction
        | _ =>
            have passed := inductionHypothesis partners strippedPartners behind
              entered
            rwa [acts.rank_succ] at passed
      · have idle : ¬ActsAt instructions index := by
          rintro ⟨other, alsoFetched, acts⟩
          obtain rfl := Option.some.inj (fetched.symm.trans alsoFetched)
          exact isAction acts
        rw [List.filter_cons_of_neg isAction]
        cases opcode with
        | comment character =>
            have passed := inductionHypothesis partners strippedPartners behind
              entered
            rwa [rank_succ_of_not_actsAt idle] at passed
        | _ => exact absurd rfl isAction

/-- Deleting the comments relocates what building a bracket map leads to. -/
theorem relocates_build
    {instructions strippedInstructions : Array Opcode}
    (stripped_eq : strippedInstructions.toList =
      instructions.toList.filter Opcode.acts) :
    Relocates instructions.toList (build instructions)
      (build strippedInstructions) := by
  unfold build
  rw [stripped_eq]
  exact relocates_buildFrom _ _ rfl (List.forall_mem_nil _)

end BracketMap

namespace Program

open Brackets

/-- One program has the instructions of another one without its comments. -/
structure Strips (stripped program : Program) : Prop where
  instructions : stripped.instructions.toList =
    program.instructions.toList.filter Opcode.acts
  matched : program.WellMatched
  strippedMatched : stripped.WellMatched

/-- The rank of an index of a program. -/
def rank (program : Program) (index : Nat) : Nat :=
  SymbolicTape.rank program.instructions.toList index

section Strips

variable {stripped program : Program}

/-- The exit of a loop is at the rank of its exit. -/
theorem Strips.matchingExit?_rank
    (strips : stripped.Strips program)
    {enter : Nat}
    (isEnter : program.instruction? enter = some .loopEnter) :
    stripped.matchingExit? (program.rank enter) =
      (program.matchingExit? enter).map program.rank := by
  rw [← getElem?_toList_instructions] at isEnter
  have acts := actsAt_of_enter isEnter
  cases found : program.matchingExit? enter with
  | some exit =>
      have partners := strips.matched.matchingExit?_eq_some_iff.mp found
      rw [Option.map_some, strips.strippedMatched.matchingExit?_eq_some_iff,
        strips.instructions]
      exact (partners_rank_iff acts (actsAt_of_exit partners.isExit)).mpr
        partners
  | none =>
      rw [Option.map_none, Option.eq_none_iff_forall_ne_some]
      intro place alsoFound
      rw [strips.strippedMatched.matchingExit?_eq_some_iff,
        strips.instructions] at alsoFound
      -- The exit that was found has an index in the program with comments.
      have inBounds := alsoFound.exit_lt_length
      rw [← rank_of_length_le (Nat.le_refl _)] at inBounds
      obtain ⟨exit, -, exitActs, rfl⟩ := exists_actsAt_of_lt_rank inBounds
      have partners := (partners_rank_iff acts exitActs).mp alsoFound
      cases found.symm.trans
        (strips.matched.matchingExit?_eq_some_iff.mpr partners)

end Strips

/-! ## Texts -/

/-- Whether a character is one of the eight instructions. -/
def isInstruction (character : Char) : Bool :=
  "><+-[],.".toList.contains character

/-- The characters of a text that are instructions, with their positions. -/
def keptCharacters (source : String) : List (Char × Nat) :=
  source.toList.zipIdx.filter fun entry => isInstruction entry.1

/-- A text without its comments. -/
def strip (source : String) : String :=
  String.ofList ((keptCharacters source).map Prod.fst)

/-- The positions in a text of the characters that are left without its
comments. -/
def places (source : String) : List Nat :=
  (keptCharacters source).map Prod.snd

theorem acts_ofChar (character : Char) :
    (Opcode.ofChar character).acts = isInstruction character := by
  unfold Opcode.ofChar
  split
  case h_9 => simp_all [Opcode.acts, isInstruction]
  all_goals rfl

theorem toList_strip (source : String) :
    (strip source).toList = source.toList.filter isInstruction := by
  rw [strip, String.toList_ofList, ← @List.zipIdx_map_fst _ 0 source.toList,
    List.filter_map]
  rfl

/-- Stripping a text deletes the comments of its program. -/
theorem toList_decode_strip (source : String) :
    (decode (strip source)).toList =
      (decode source).toList.filter Opcode.acts := by
  unfold decode
  dsimp only
  rw [toList_strip, List.filter_map]
  congr 2
  funext character
  exact (acts_ofChar character).symm

theorem rank_decode (source : String) (position : Nat) :
    SymbolicTape.rank (decode source).toList position =
      (source.toList.take position).countP isInstruction := by
  unfold SymbolicTape.rank decode
  dsimp only
  rw [← List.map_take, List.countP_map]
  congr 1
  funext character
  exact acts_ofChar character

/-- The instruction at a position is the one at its rank that is left. -/
theorem getElem?_places
    {source : String}
    {position : Nat}
    (acts : ActsAt (decode source).toList position) :
    (places source)[SymbolicTape.rank (decode source).toList position]? =
      some position := by
  obtain ⟨opcode, fetched, isAction⟩ := acts
  obtain ⟨character, here, rfl⟩ : ∃ character,
      source.toList[position]? = some character ∧
        Opcode.ofChar character = opcode := by
    simpa [decode] using fetched
  obtain ⟨inBounds, rfl⟩ := List.getElem?_eq_some_iff.mp here
  rw [acts_ofChar] at isAction
  have length_eq : (source.toList.take position).length = position :=
    List.length_take_of_le (Nat.le_of_lt inBounds)
  -- What is kept of the characters before the position is as long as the rank.
  have before_eq : (((source.toList.take position).zipIdx.filter fun entry =>
        isInstruction entry.1).map Prod.snd).length =
      SymbolicTape.rank (decode source).toList position := by
    rw [rank_decode, List.length_map, ← List.countP_eq_length_filter,
      ← @List.zipIdx_map_fst _ 0 (source.toList.take position),
      List.countP_map, List.zipIdx_map_fst]
    rfl
  have split_eq : source.toList.zipIdx =
      (source.toList.take position).zipIdx
        ++ (source.toList[position], position)
          :: (source.toList.drop (position + 1)).zipIdx (position + 1) := by
    conv_lhs => rw [← List.take_append_drop position source.toList,
      List.drop_eq_getElem_cons inBounds, List.zipIdx_append, length_eq,
      List.zipIdx_cons, Nat.zero_add]
  rw [places, keptCharacters, split_eq, List.filter_append, List.map_append,
    ← before_eq, List.getElem?_append_right (Nat.le_refl _), Nat.sub_self,
    List.filter_cons_of_pos (by exact isAction)]
  rfl

section Load

variable {source : String}

theorem load_lazy_of_fits (fits : ¬maximumProgramSize < (decode source).size) :
    load source .lazy = .ok ⟨decode source, none⟩ := by
  rw [load, if_neg fits]

theorem load_precomputed_of_fits
    (fits : ¬maximumProgramSize < (decode source).size) :
    load source .precomputed =
      (BracketMap.build (decode source)).map fun brackets =>
        ⟨decode source, some brackets⟩ := by
  rw [load, if_neg fits]

theorem strips_of_load
    {matching : Matching}
    {program stripped : Program}
    (loaded : load source matching = .ok program)
    (strippedLoaded : load (strip source) matching = .ok stripped)
    (instructions_eq : program.instructions = decode source)
    (strippedInstructions_eq : stripped.instructions = decode (strip source)) :
    stripped.Strips program := by
  refine ⟨?_, wellMatched_of_load loaded, wellMatched_of_load strippedLoaded⟩
  rw [instructions_eq, strippedInstructions_eq, toList_decode_strip]

/-- A text that is not too long is loaded or refused with its comments as it is
without them. -/
theorem load_strip
    (fits : source.length ≤ maximumProgramSize)
    (matching : Matching) :
    (∃ program stripped,
      load source matching = .ok program ∧
        load (strip source) matching = .ok stripped ∧
        program.instructions = decode source ∧
        stripped.Strips program) ∨
      ∃ location reason,
        load source matching = .error ⟨location, reason⟩ ∧
          load (strip source) matching =
            .error
              ⟨SymbolicTape.rank (decode source).toList location, reason⟩ ∧
          ActsAt (decode source).toList location := by
  have notLarge : ¬maximumProgramSize < (decode source).size := by
    simpa [decode, String.length_toList] using fits
  have strippedNotLarge :
      ¬maximumProgramSize < (decode (strip source)).size := by
    have shorter := List.length_filter_le Opcode.acts (decode source).toList
    rw [← toList_decode_strip, Array.length_toList, Array.length_toList]
      at shorter
    exact Nat.not_lt.mpr (shorter.trans (Nat.not_lt.mp notLarge))
  cases matching with
  | lazy =>
      have loaded := load_lazy_of_fits notLarge
      have strippedLoaded := load_lazy_of_fits strippedNotLarge
      exact .inl ⟨_, _, loaded, strippedLoaded, rfl,
        strips_of_load loaded strippedLoaded rfl rfl⟩
  | precomputed =>
      have loaded := load_precomputed_of_fits notLarge
      have strippedLoaded := load_precomputed_of_fits strippedNotLarge
      have relocates :=
        BracketMap.relocates_build (toList_decode_strip source)
      generalize BracketMap.build (decode source) = built
        at relocates loaded
      generalize BracketMap.build (decode (strip source)) = strippedBuilt
        at relocates strippedLoaded
      cases relocates with
      | ok =>
          exact .inl ⟨_, _, loaded, strippedLoaded, rfl,
            strips_of_load loaded strippedLoaded rfl rfl⟩
      | error acts => exact .inr ⟨_, _, loaded, strippedLoaded, acts⟩

end Load
end Program
end SymbolicTape
