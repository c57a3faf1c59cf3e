import SymbolicTape.Machine

/-!
# The length of the tape of the concrete machine

Two machines that differ only in the length of their tapes do the same as long
as neither reaches past its end.  `Machine.Extends` relates a machine on a fixed
tape to one that has at least the same room: both tapes hold the same bytes,
where a cell that does not exist yet counts as zero.  An instruction keeps the
relation, or it faults on both tapes for the same reason, or it has reached past
the end of the fixed tape.

The head moves by one cell at a time, so a run of a number of instructions does
not reach past the end of a tape with so many cells.
-/

namespace SymbolicTape

namespace Fault

/-- The fault without the number of cells that the tape had. -/
def withoutCapacity : Fault -> Fault
  | .memoryAccess pointer _ => .memoryAccess pointer 0
  | other => other

/-- A cell past the end of a tape of `capacity` cells was looked at. -/
def IsPastEnd (capacity : Nat) : Fault -> Prop
  | .memoryAccess pointer _ => (capacity : Int) ≤ pointer.toInt
  | _ => False

theorem IsPastEnd.of_le
    {capacity larger : Nat}
    {fault : Fault}
    (reached : fault.IsPastEnd larger)
    (atLeast : capacity ≤ larger) :
    fault.IsPastEnd capacity := by
  cases fault with
  | memoryAccess place size =>
      unfold IsPastEnd at reached ⊢
      omega
  | unbalancedLoop | noMatchingLoopExit | unsupportedConcretization =>
      exact reached

/-- If a cell was looked at that does not exist, it is the one at `pointer`. -/
def IsAt (pointer : Int64) : Fault -> Prop
  | .memoryAccess place _ => place = pointer
  | _ => True

theorem IsAt.not_isPastEnd
    {pointer : Int64}
    {fault : Fault}
    {capacity : Nat}
    (isAt : fault.IsAt pointer)
    (near : pointer.toInt.natAbs < capacity) :
    ¬fault.IsPastEnd capacity := by
  intro reached
  cases fault with
  | memoryAccess place size =>
      obtain rfl : place = pointer := isAt
      unfold IsPastEnd at reached
      omega
  | unbalancedLoop | noMatchingLoopExit | unsupportedConcretization =>
      exact reached

end Fault

/-! ## Accesses to tapes of different length -/

/-- What something comes to that is done on a tape of `capacity` cells and on a
longer one: it succeeds on both, it faults on both for the same reason, or it
reaches past the end of the shorter tape. -/
inductive Carries
    (capacity : Nat)
    (related : α -> β -> Prop) : Except Fault α -> Except Fault β -> Prop
  | ok
      {first : α}
      {second : β}
      (relates : related first second) :
      Carries capacity related (.ok first) (.ok second)
  | error
      {first second : Fault}
      (same : first.withoutCapacity = second.withoutCapacity) :
      Carries capacity related (.error first) (.error second)
  | pastEnd
      {fault : Fault}
      (reached : fault.IsPastEnd capacity)
      (result : Except Fault β) :
      Carries capacity related (.error fault) result

/-- What is done next on both tapes. -/
theorem Carries.bind
    {capacity : Nat}
    {related : α -> β -> Prop}
    {relatedNext : γ -> δ -> Prop}
    {first : Except Fault α}
    {second : Except Fault β}
    {firstNext : α -> Except Fault γ}
    {secondNext : β -> Except Fault δ}
    (carries : Carries capacity related first second)
    (next : ∀ {one other}, related one other ->
      Carries capacity relatedNext (firstNext one) (secondNext other)) :
    Carries capacity relatedNext (first >>= firstNext)
      (second >>= secondNext) := by
  cases carries with
  | ok relates => exact next relates
  | error same => exact .error same
  | pastEnd reached result => exact .pastEnd reached _

namespace ByteTape

/-- The second tape has all the room that the first has, which does not grow, and
it holds the same bytes.  A cell that does not exist counts as zero. -/
structure Extends (capacity : Nat) (small large : ByteTape) : Prop where
  bound_eq : small.bound = .fixed capacity
  size_eq : small.cells.size = capacity
  room : large.bound = .growable ∨ capacity ≤ large.cells.size
  bytes : ∀ index, small.cells.getD index 0 = large.cells.getD index 0

/-- Cells that are added hold zero. -/
theorem getD_rightpad (cells : Array UInt8) (size index : Nat) :
    (cells.rightpad size 0).getD index 0 = cells.getD index 0 := by
  rw [Array.getD_eq_getD_getElem?, Array.getD_eq_getD_getElem?, Array.rightpad,
    Array.getElem?_append]
  split
  · rfl
  · rename_i outside
    rw [Array.getElem?_replicate,
      Array.getElem?_eq_none (Nat.le_of_not_lt outside)]
    split <;> rfl

theorem getD_setIfInBounds
    {cells : Array UInt8}
    {index : Nat}
    (inBounds : index < cells.size)
    (byte : UInt8)
    (other : Nat) :
    (cells.setIfInBounds index byte).getD other 0 =
      if index = other then byte else cells.getD other 0 := by
  rw [Array.getD_eq_getD_getElem?, Array.getElem?_setIfInBounds,
    Array.getD_eq_getD_getElem?]
  by_cases same : index = other
  · rw [if_pos same, if_pos inBounds, if_pos same]
    rfl
  · rw [if_neg same, if_neg same]

theorem isAt_of_reach
    {tape : ByteTape}
    {pointer : Int64}
    {fault : Fault}
    (failed : tape.reach pointer = .error fault) :
    fault.IsAt pointer := by
  unfold reach at failed
  split at failed
  · cases failed
    rfl
  split at failed
  · cases failed
  split at failed
  · cases failed
  · cases failed
    rfl

/-- A tape without cells and a tape of zeros hold the same bytes. -/
theorem extends_blank
    {capacity : Nat}
    {bound : TapeBound}
    (roomier : bound = .growable ∨ ∃ larger, capacity ≤ larger ∧
      bound = .fixed larger) :
    Extends capacity (blank (.fixed capacity)) (blank bound) := by
  have zeros (size index : Nat) :
      (Array.replicate size (0 : UInt8)).getD index 0 = 0 := by
    rw [Array.getD_eq_getD_getElem?, Array.getElem?_replicate]
    split <;> rfl
  rcases roomier with rfl | ⟨larger, atLeast, rfl⟩
  · refine ⟨rfl, Array.size_replicate, .inl rfl, ?_⟩
    intro index
    exact zeros capacity index
  · refine ⟨rfl, Array.size_replicate, .inr ?_, ?_⟩
    · exact Nat.le_trans atLeast (Nat.le_of_eq Array.size_replicate.symm)
    · intro index
      exact (zeros capacity index).trans (zeros larger index).symm

section Extends

variable {capacity : Nat} {small large : ByteTape}

/-- Both tapes reach a cell. -/
structure Reached
    (capacity index : Nat)
    (small large : ByteTape) : Prop extends Extends capacity small large where
  inSmall : index < small.cells.size
  inLarge : index < large.cells.size

/-- A cell that exists on the first tape exists on the second or is added to
it. -/
theorem Extends.reach
    (extended : Extends capacity small large)
    (pointer : Int64) :
    Carries capacity (Reached capacity pointer.toNatClampNeg)
      (small.reach pointer) (large.reach pointer) := by
  obtain ⟨bound, cells⟩ := small
  obtain ⟨largeBound, largeCells⟩ := large
  obtain ⟨bound_eq, size_eq, room, bytes⟩ := extended
  dsimp only at bound_eq size_eq room bytes
  subst bound_eq size_eq
  unfold ByteTape.reach
  dsimp only
  by_cases negative : pointer < 0
  · rw [if_pos negative, if_pos negative]
    exact .error rfl
  rw [if_neg negative, if_neg negative]
  by_cases inSmall : pointer.toNatClampNeg < cells.size
  · rw [if_pos inSmall]
    by_cases inLarge : pointer.toNatClampNeg < largeCells.size
    · rw [if_pos inLarge]
      exact .ok ⟨⟨rfl, rfl, room, bytes⟩, inSmall, inLarge⟩
    · rw [if_neg inLarge]
      rcases room with rfl | roomier
      · refine .ok ⟨⟨rfl, rfl, .inl rfl, ?_⟩, inSmall, ?_⟩
        · intro index
          rw [bytes, getD_rightpad]
        · rw [Array.size_rightpad]
          exact Nat.lt_of_succ_le (Nat.le_max_left _ _)
      · exact absurd (Nat.lt_of_lt_of_le inSmall roomier) inLarge
  · rw [if_neg inSmall]
    refine .pastEnd ?_ _
    have nonNegative := Int64.le_iff_toInt_le.mp (Int64.not_lt.mp negative)
    have clamped : pointer.toInt.toNat = pointer.toNatClampNeg := rfl
    unfold Fault.IsPastEnd
    rw [Int64.toInt_zero] at nonNegative
    omega

theorem Extends.get
    (extended : Extends capacity small large)
    (pointer : Int64) :
    Carries capacity
      (fun read other => read.1 = other.1 ∧ Extends capacity read.2 other.2)
      (small.get pointer) (large.get pointer) := by
  refine (extended.reach pointer).bind ?_
  intro reached other both
  exact .ok ⟨both.bytes _, both.toExtends⟩

theorem Extends.set
    (extended : Extends capacity small large)
    (pointer : Int64)
    (byte : UInt8) :
    Carries capacity (Extends capacity) (small.set pointer byte)
      (large.set pointer byte) := by
  refine (extended.reach pointer).bind ?_
  intro reached other both
  refine .ok ⟨both.bound_eq, ?_, ?_, ?_⟩
  · rw [Array.size_setIfInBounds]
    exact both.size_eq
  · rw [Array.size_setIfInBounds]
    exact both.room
  · intro index
    rw [getD_setIfInBounds both.inSmall, getD_setIfInBounds both.inLarge,
      both.bytes]

end Extends
end ByteTape

/-! ## Machines on tapes of different length -/

namespace Machine

/-- The machines differ only in their tapes, of which the second extends the
first. -/
structure Extends (capacity : Nat) (small large : Machine) : Prop where
  same : large = { small with tape := large.tape }
  tape : ByteTape.Extends capacity small.tape large.tape

theorem extends_initial
    {capacity : Nat}
    {bound : TapeBound}
    (roomier : bound = .growable ∨ ∃ larger, capacity ≤ larger ∧
      bound = .fixed larger) :
    Extends capacity (initial (.fixed capacity)) (initial bound) :=
  ⟨rfl, ByteTape.extends_blank roomier⟩

/-- What a run comes to on a tape of `capacity` cells and on a longer one. -/
inductive Echoes (capacity : Nat) :
    Option (Except (Located Fault) (Array UInt8)) ->
      Option (Except (Located Fault) (Array UInt8)) -> Prop
  | running : Echoes capacity none none
  | ended (output : Array UInt8) :
      Echoes capacity (some (.ok output)) (some (.ok output))
  | faulted
      {first second : Fault}
      (location : Nat)
      (same : first.withoutCapacity = second.withoutCapacity) :
      Echoes capacity (some (.error ⟨location, first⟩))
        (some (.error ⟨location, second⟩))
  | pastEnd
      {fault : Fault}
      (location : Nat)
      (reached : fault.IsPastEnd capacity)
      (result : Option (Except (Located Fault) (Array UInt8))) :
      Echoes capacity (some (.error ⟨location, fault⟩)) result

section Extends

variable {capacity : Nat} {small large : Machine}

/-- An instruction does the same on both tapes, up to the end of the first. -/
theorem Extends.execute
    (extended : Extends capacity small large)
    (program : Program)
    (input : InputStream)
    (opcode : Opcode) :
    Carries capacity (Extends capacity)
      (small.execute program input opcode)
      (large.execute program input opcode) := by
  obtain ⟨instructionPointer, pointer, loopStack, tape, reads, output⟩ := small
  obtain ⟨_, _, _, largeTape, _, _⟩ := large
  obtain ⟨same, tapes⟩ := extended
  cases same
  dsimp only at tapes
  cases opcode with
  | moveRight | moveLeft | comment => exact .ok ⟨rfl, tapes⟩
  | increment | decrement =>
      refine (tapes.get pointer).bind ?_
      rintro ⟨byte, tape⟩ ⟨_, largeTape⟩ ⟨rfl, tapes⟩
      refine (tapes.set pointer _).bind ?_
      intro tape largeTape tapes
      exact .ok ⟨rfl, tapes⟩
  | loopEnter =>
      refine (tapes.get pointer).bind ?_
      rintro ⟨byte, tape⟩ ⟨_, largeTape⟩ ⟨rfl, tapes⟩
      dsimp only
      split
      · split
        · exact .error rfl
        · exact .ok ⟨rfl, tapes⟩
      · exact .ok ⟨rfl, tapes⟩
  | loopExit =>
      cases loopStack with
      | nil => exact .error rfl
      | cons enter outer =>
          refine (tapes.get pointer).bind ?_
          rintro ⟨byte, tape⟩ ⟨_, largeTape⟩ ⟨rfl, tapes⟩
          dsimp only
          split
          · exact .ok ⟨rfl, tapes⟩
          · exact .ok ⟨rfl, tapes⟩
  | read =>
      refine (tapes.set pointer (input reads)).bind ?_
      intro tape largeTape tapes
      exact .ok ⟨rfl, tapes⟩
  | write =>
      refine (tapes.get pointer).bind ?_
      rintro ⟨byte, tape⟩ ⟨_, largeTape⟩ ⟨rfl, tapes⟩
      exact .ok ⟨rfl, tapes⟩

/-- A run comes to the same on both tapes, unless it reaches past the end of the
first. -/
theorem Extends.run
    (extended : Extends capacity small large)
    (program : Program)
    (input : InputStream)
    (fuel : Nat) :
    Echoes capacity (small.run program input fuel)
      (large.run program input fuel) := by
  induction fuel generalizing small large with
  | zero =>
      rw [extended.same, Machine.run.eq_def, Machine.run.eq_def]
      dsimp only
      cases program.instruction? small.instructionPointer with
      | none => exact .ended small.output
      | some opcode => exact .running
  | succ fuel inductionHypothesis =>
      have executed := extended.execute program input
      have location_eq : large.instructionPointer =
          small.instructionPointer := by
        rw [extended.same]
      have output_eq : large.output = small.output := by
        rw [extended.same]
      rw [Machine.run.eq_def, Machine.run.eq_def]
      dsimp only
      rw [location_eq, output_eq]
      cases program.instruction? small.instructionPointer with
      | none => exact .ended small.output
      | some opcode =>
          dsimp only
          have carries := executed opcode
          generalize small.execute program input opcode = first at carries
          generalize large.execute program input opcode = second at carries
          cases carries with
          | ok relates => exact inductionHypothesis relates
          | error same => exact .faulted _ same
          | pastEnd reached result => exact .pastEnd _ reached _

end Extends

/-! ## How far the head gets -/

/-- What an instruction does to a head at `pointer`: it moves by one cell at
most, and a fault of the tape concerns the cell that it is on. -/
def StaysNear (pointer : Int64) : Except Fault Machine -> Prop
  | .ok next => next.pointer.toInt.natAbs ≤ pointer.toInt.natAbs + 1
  | .error fault => fault.IsAt pointer

theorem natAbs_toInt_add_one (pointer : Int64) :
    (pointer + 1).toInt.natAbs ≤ pointer.toInt.natAbs + 1 := by
  have upper := pointer.toInt_lt
  have lower := pointer.le_toInt
  rw [Int64.toInt_add, Int64.toInt_one, Int.bmod_def]
  split <;> omega

theorem natAbs_toInt_sub_one (pointer : Int64) :
    (pointer - 1).toInt.natAbs ≤ pointer.toInt.natAbs + 1 := by
  have upper := pointer.toInt_lt
  have lower := pointer.le_toInt
  rw [Int64.toInt_sub, Int64.toInt_one, Int.bmod_def]
  split <;> omega

/-- An instruction that begins by looking at the current cell. -/
theorem staysNear_access
    {tape : ByteTape}
    {pointer : Int64}
    {access : ByteTape -> α}
    {next : α -> Except Fault Machine}
    (near : ∀ value, StaysNear pointer (next value)) :
    StaysNear pointer
      ((tape.reach pointer >>= fun reached => pure (access reached)) >>=
        next) := by
  cases reached_eq : tape.reach pointer with
  | error fault => exact ByteTape.isAt_of_reach reached_eq
  | ok reached => exact near (access reached)

/-- Every instruction leaves the head near the cell that it was on. -/
theorem staysNear_execute
    (program : Program)
    (input : InputStream)
    (opcode : Opcode)
    (machine : Machine) :
    StaysNear machine.pointer (machine.execute program input opcode) := by
  obtain ⟨instructionPointer, pointer, loopStack, tape, reads, output⟩ :=
    machine
  have stays : pointer.toInt.natAbs ≤ pointer.toInt.natAbs + 1 :=
    Nat.le_succ _
  cases opcode with
  | moveRight => exact natAbs_toInt_add_one pointer
  | moveLeft => exact natAbs_toInt_sub_one pointer
  | comment character => exact stays
  | increment | decrement =>
      refine staysNear_access fun _ => ?_
      exact staysNear_access fun _ => stays
  | loopEnter =>
      refine staysNear_access fun _ => ?_
      dsimp only
      split
      · split
        · trivial
        · exact stays
      · exact stays
  | loopExit =>
      cases loopStack with
      | nil => trivial
      | cons enter outer =>
          refine staysNear_access fun _ => ?_
          dsimp only
          split
          · exact stays
          · exact stays
  | read => exact staysNear_access fun _ => stays
  | write => exact staysNear_access fun _ => stays

/-- A run does not reach past the end of a tape that has a cell for each of its
instructions. -/
theorem not_isPastEnd_of_run
    {program : Program}
    {input : InputStream}
    {machine : Machine}
    {fuel distance location : Nat}
    {fault : Fault}
    (near : machine.pointer.toInt.natAbs ≤ distance)
    (faulted : machine.run program input fuel =
      some (.error ⟨location, fault⟩)) :
    ¬fault.IsPastEnd (distance + fuel) := by
  induction fuel generalizing machine distance with
  | zero =>
      rw [Machine.run.eq_def] at faulted
      dsimp only at faulted
      cases fetched : program.instruction? machine.instructionPointer with
      | none | some =>
          rw [fetched] at faulted
          cases faulted
  | succ fuel inductionHypothesis =>
      rw [Machine.run.eq_def] at faulted
      dsimp only at faulted
      cases fetched : program.instruction? machine.instructionPointer with
      | none =>
          rw [fetched] at faulted
          cases faulted
      | some opcode =>
          have stays := staysNear_execute program input opcode machine
          rw [fetched] at faulted
          dsimp only at faulted
          generalize machine.execute program input opcode = executed
            at faulted stays
          cases executed with
          | error reason =>
              cases faulted
              exact stays.not_isPastEnd (by omega)
          | ok next =>
              dsimp only at faulted
              have nextNear : next.pointer.toInt.natAbs ≤ distance + 1 :=
                Nat.le_trans stays (Nat.succ_le_succ near)
              have inside := inductionHypothesis nextNear faulted
              rwa [Nat.add_right_comm] at inside

end Machine

/-- The tape of the machine may be of any length that is enough.  What a program
writes on a tape of some length is what it writes on any longer one and on one
that grows, within the same number of instructions.  A fault that is not due to
the end of the tape is a fault of the same kind, at the same instruction and with
the head on the same cell, on the tape that grows.  What a program writes on the
tape that grows it also writes on every tape that is long enough; a cell for each
instruction is enough. -/
theorem tape_bounds_agree
    (program : Program)
    (input : Array UInt8)
    (fuel : Nat) :
    (∀ {capacity : Nat} {output : Array UInt8},
      interpret program input (.fixed capacity) fuel = some (.ok output) ->
        (∀ larger, capacity ≤ larger ->
          interpret program input (.fixed larger) fuel = some (.ok output)) ∧
        interpret program input .growable fuel = some (.ok output)) ∧
    (∀ {capacity : Nat} {error : Located Fault},
      interpret program input (.fixed capacity) fuel = some (.error error) ->
        ¬error.payload.IsPastEnd capacity ->
          ∃ other, interpret program input .growable fuel =
              some (.error other) ∧
            other.location = error.location ∧
            other.payload.withoutCapacity = error.payload.withoutCapacity) ∧
    (∀ {output : Array UInt8},
      interpret program input .growable fuel = some (.ok output) ->
        ∃ capacity ≤ fuel, ∀ larger, capacity ≤ larger ->
          interpret program input (.fixed larger) fuel =
            some (.ok output)) := by
  have echoes {capacity : Nat} {bound : TapeBound}
      (roomier : bound = .growable ∨ ∃ larger, capacity ≤ larger ∧
        bound = .fixed larger) :
      Machine.Echoes capacity (interpret program input (.fixed capacity) fuel)
        (interpret program input bound fuel) :=
    (Machine.extends_initial roomier).run program (.ofBytes input) fuel
  refine ⟨?_, ?_, ?_⟩
  · intro capacity output ended
    have same {bound : TapeBound}
        (roomier : bound = .growable ∨ ∃ larger, capacity ≤ larger ∧
          bound = .fixed larger) :
        interpret program input bound fuel = some (.ok output) := by
      have echo := echoes roomier
      rw [ended] at echo
      generalize interpret program input bound fuel = result at echo
      cases echo with
      | ended => rfl
    exact ⟨fun larger atLeast => same (.inr ⟨larger, atLeast, rfl⟩),
      same (.inl rfl)⟩
  · intro capacity error faulted inside
    have echo := @echoes capacity .growable (.inl rfl)
    rw [faulted] at echo
    generalize interpret program input .growable fuel = result at echo
    cases echo with
    | faulted location same => exact ⟨_, rfl, rfl, same.symm⟩
    | pastEnd location reached => exact absurd reached inside
  · intro output ended
    refine ⟨fuel, Nat.le_refl fuel, ?_⟩
    intro larger atLeast
    have echo := @echoes larger .growable (.inl rfl)
    rw [ended] at echo
    generalize ended_eq : interpret program input (.fixed larger) fuel = result
      at echo
    cases echo with
    | ended => rfl
    | pastEnd location reached =>
        have start :
            (Machine.initial (.fixed larger)).pointer.toInt.natAbs ≤ 0 :=
          Nat.le_refl 0
        have inside := Machine.not_isPastEnd_of_run start ended_eq
        rw [Nat.zero_add] at inside
        exact absurd (reached.of_le atLeast) inside

/-- A program that writes twice an input byte, plus one. -/
def doubling : Program :=
  ⟨#[.read, .moveRight, .increment, .moveLeft, .loopEnter, .moveRight,
      .increment, .increment, .moveLeft, .decrement, .loopExit, .moveRight,
      .write, .moveLeft],
    none⟩

/-- A program that writes the cell left of the first one. -/
def startsOffTape : Program := ⟨#[.moveLeft, .write], none⟩

/-- On two cells the doubling program writes seven for an input of three, and so
it does on five cells and on a tape that grows.  A cell left of the tape is a
fault on every tape, although the number of cells in the fault differs. -/
theorem tape_bounds_agree_doubling :
    interpret doubling #[3] (.fixed 2) 30 = some (.ok #[7]) ∧
      interpret doubling #[3] (.fixed 5) 30 = some (.ok #[7]) ∧
      interpret doubling #[3] .growable 30 = some (.ok #[7]) ∧
      (∃ capacity ≤ 30, ∀ larger, capacity ≤ larger ->
        interpret doubling #[3] (.fixed larger) 30 = some (.ok #[7])) ∧
      interpret startsOffTape #[] (.fixed 4) 2 =
        some (.error ⟨1, .memoryAccess (-1) 4⟩) ∧
      ∃ other, interpret startsOffTape #[] .growable 2 = some (.error other) ∧
        other.location = 1 ∧
        other.payload.withoutCapacity = .memoryAccess (-1) 0 := by
  have writes : interpret doubling #[3] (.fixed 2) 30 = some (.ok #[7]) := rfl
  have faults : interpret startsOffTape #[] (.fixed 4) 2 =
      some (.error ⟨1, .memoryAccess (-1) 4⟩) := rfl
  have leftOfTape : ¬(Fault.memoryAccess (-1) 4).IsPastEnd 4 := by
    unfold Fault.IsPastEnd
    decide
  obtain ⟨longer, -, shorter⟩ := tape_bounds_agree doubling #[3] 30
  obtain ⟨onFixed, onGrowable⟩ := longer writes
  obtain ⟨-, faulted, -⟩ := tape_bounds_agree startsOffTape #[] 2
  exact ⟨writes, onFixed 5 (by decide), onGrowable, shorter onGrowable, faults,
    faulted faults leftOfTape⟩

end SymbolicTape
