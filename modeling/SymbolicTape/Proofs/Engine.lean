import Mathlib.Algebra.Order.Group.Multiset
import Mathlib.Logic.Relation
import Mathlib.Tactic.Abel
import SymbolicTape.Engine.Execution
import SymbolicTape.Proofs.Execution

/-!
# Turns and calls of the engine

A call of the engine is a sequence of advances.  An advance that runs a path
takes it off the worklist and files what came out of its slice; any other
advance leaves the work alone.  What is filed is described by a few equations:
one for the completed paths, one for the faulted ones, one for the worklist up to
the order of its entries, and one for every counter and event of interest.

An invariant of the engine is proved for the engine before the first call and
for one advance of each kind, and `Engine.Reached.invariant` carries it through
any number of calls, however they end.
-/

namespace SymbolicTape

namespace Worklist

/-- Taking an entry splits it off the row, in one order or the other. -/
theorem perm_of_take?
    {worklist rest : Worklist α}
    {entry : α}
    (taken : worklist.take? = some (entry, rest)) :
    worklist.toList.Perm (entry :: rest.toList) := by
  unfold take? at taken
  split at taken
  · rw [toList_of_popBack? taken]
    exact List.perm_append_singleton entry rest.toList
  · rw [toList_of_popFront? taken]

theorem toList_ne_nil_of_take?
    {worklist rest : Worklist α}
    {entry : α}
    (taken : worklist.take? = some (entry, rest)) :
    worklist.toList ≠ [] := by
  intro empty
  have permuted := perm_of_take? taken
  rw [empty] at permuted
  cases permuted.length_eq

/-- The rest of a row goes by the same strategy. -/
theorem strategy_of_take?
    {worklist rest : Worklist α}
    {entry : α}
    (taken : worklist.take? = some (entry, rest)) :
    rest.strategy = worklist.strategy := by
  unfold take? at taken
  split at taken
  · unfold popBack? at taken
    split at taken
    · cases taken
      rfl
    · split at taken <;> cases taken
      rfl
  · unfold popFront? at taken
    split at taken
    · cases taken
      rfl
    · split at taken <;> cases taken
      rfl

/-- An entry that is put back is where it was taken from. -/
theorem toList_putBack_of_take?
    {worklist rest : Worklist α}
    {entry : α}
    (taken : worklist.take? = some (entry, rest)) :
    (rest.putBack entry).toList = worklist.toList := by
  have strategy_eq := strategy_of_take? taken
  unfold take? at taken
  unfold putBack
  rw [strategy_eq]
  split at taken
  · rw [toList_of_popBack? taken, toList_pushBack]
  · rw [toList_of_popFront? taken, toList_pushFront]

/-- Only from the empty row nothing can be taken. -/
theorem toList_of_take?_eq_none
    {worklist : Worklist α}
    (nothing : worklist.take? = none) :
    worklist.toList = [] := by
  unfold take? at nothing
  split at nothing
  · unfold popBack? at nothing
    split at nothing
    · cases nothing
    · rename_i backEmpty
      split at nothing
      · rename_i frontEmpty
        have noFront := List.reverse_eq_nil_iff.mp frontEmpty
        simp [toList, backEmpty, noFront]
      · cases nothing
  · unfold popFront? at nothing
    split at nothing
    · cases nothing
    · rename_i frontEmpty
      split at nothing
      · rename_i backEmpty
        simp [toList, frontEmpty, backEmpty]
      · cases nothing

@[simp] theorem toList_push (worklist : Worklist α) (entry : α) :
    (worklist.push entry).toList = worklist.toList ++ [entry] :=
  toList_pushBack worklist entry

/-- The sides of a fork are added to the row. -/
theorem perm_pushSides
    (worklist : Worklist α)
    (first second : Option α) :
    (worklist.pushSides first second).toList.Perm
      (first.toList ++ second.toList ++ worklist.toList) := by
  cases first with
  | none =>
      cases second with
      | none => exact List.Perm.refl _
      | some second =>
          simp only [pushSides, toList_push, Option.toList_none,
            Option.toList_some, List.nil_append]
          exact List.perm_append_comm
  | some first =>
      cases second with
      | none =>
          simp only [pushSides, toList_push, Option.toList_none,
            Option.toList_some, List.append_nil]
          exact List.perm_append_comm
      | some second =>
          unfold pushSides pushFork
          dsimp only
          split
          · simp only [toList_pushBack, Option.toList_some]
            rw [List.append_assoc]
            exact List.perm_append_comm.trans
              ((List.Perm.swap first second []).append_right _)
          · simp only [toList_pushBack, Option.toList_some]
            rw [List.append_assoc]
            exact List.perm_append_comm

end Worklist

/-! ## What is filed after a slice -/

namespace Outcome

/-- What a run that was cut off leaves to be run. -/
def next? : Outcome σ -> Option σ
  | .advanced state => some state
  | _ => none

/-- What a run completes. -/
def completed : Outcome σ -> List σ
  | .done state => [state]
  | _ => []

/-- The sides of the fork on which a run ends. -/
def sides : Outcome σ -> List σ
  | .forked _ zero nonZero => [zero, nonZero]
  | _ => []

/-- The number of forks on which a run ends. -/
def forkCount : Outcome σ -> Nat
  | .forked _ _ _ => 1
  | _ => 0

/-- The path that a run leaves faulted. -/
def faultedPaths : Outcome Path -> List FaultedPath
  | .faulted path fault => [⟨path, fault⟩]
  | _ => []

theorem sides_of_unforked
    {outcome : Outcome σ}
    (unforked : outcome.forkCount = 0) :
    outcome.sides = [] := by
  cases outcome with
  | forked location zero nonZero => cases unforked
  | _ => rfl

end Outcome

namespace Engine

/-- The sides of a fork that are dropped. -/
def dropped (engine : Engine) (outcome : Outcome Path) : List Path :=
  outcome.sides.filter engine.isPruned

/-- The paths that go on after a slice. -/
def kept (engine : Engine) : Outcome Path -> List Path
  | .advanced path => [path]
  | outcome => outcome.sides.filter fun side => !engine.isPruned side

theorem kept_of_unforked
    (engine : Engine)
    {outcome : Outcome Path}
    (unforked : outcome.forkCount = 0) :
    engine.kept outcome = outcome.next?.toList := by
  cases outcome with
  | forked location zero nonZero => cases unforked
  | _ => rfl

/-- All paths of the engine: the completed, the faulted and the waiting
ones. -/
def paths (engine : Engine) : List Path :=
  engine.completed.toList ++ engine.faulted.toList.map FaultedPath.path
    ++ engine.pending

@[simp] theorem isPruned_record
    (event : Event)
    (engine : Engine)
    (path : Path) :
    (engine.record event).isPruned path = engine.isPruned path := rfl

/-- The events at the end of a slice that did not end in a fork. -/
def endings (identifier : Identifier) : Outcome Path -> List Event
  | .done path => [.completed identifier path.state.constraint]
  | .faulted _ fault =>
      [.stepFaulted identifier fault, .faulted identifier fault]
  | _ => []

theorem mem_endings
    {identifier : Identifier}
    {outcome : Outcome Path}
    {event : Event}
    (member : event ∈ endings identifier outcome) :
    (∃ constraint, event = .completed identifier constraint) ∨
      ∃ fault, event = .stepFaulted identifier fault ∨
        event = .faulted identifier fault := by
  cases outcome with
  | done path => exact .inl ⟨_, List.mem_singleton.mp member⟩
  | faulted path fault => exact .inr ⟨fault, by simpa [endings] using member⟩
  | advanced path => cases member
  | forked location zero nonZero => cases member

/-- The events of looking at a side of a fork. -/
def notices (dropped : Bool) (path : Path) : List Event :=
  path.state.constraint.newest?.toList.map
      (Event.forkedOff path.identifier path.parent)
    ++ if dropped then
        [.pruned path.identifier path.state.constraint]
      else
        []

/-- Looking at a side of a fork changes the journal and the number of dropped
paths. -/
theorem inspect_eq (path : Path) (engine : Engine) :
    engine.inspect path =
      (if engine.isPruned path then none else some path,
        { engine with
          journal :=
            engine.journal ++ (notices (engine.isPruned path) path).toArray
          statistics :=
            { engine.statistics with
              pruned := engine.statistics.pruned
                + (engine.isPruned path).toNat } }) := by
  unfold inspect notices
  cases path.state.constraint.newest? with
  | none => cases dropped : engine.isPruned path <;> simp [dropped, record]
  | some clause =>
      dsimp only
      rw [isPruned_record]
      cases dropped : engine.isPruned path with
      | false => simp [record]
      | true =>
          have pushed (journal : Journal) (first second : Event) :
              (journal.push first).push second =
                journal ++ #[first, second] := by
            simp [← Array.toList_inj]
          simp [record, pushed]

/-- The engine after a slice of a path that ended in a fork, of which it drops
the sides that it is told to. -/
def afterFork
    (engine : Engine)
    (path : Path)
    (rest : Worklist Path)
    (executed location : Nat)
    (zeroDropped nonZeroDropped : Bool)
    (zero nonZero : Path) : Engine :=
  let ran := engine.record
    (.running path.identifier path.state.instructionPointer)
  let split := ran.record
    (.split path.identifier location zero.identifier nonZero.identifier)
  let worklist := rest.pushSides
    (if zeroDropped then none else some zero)
    (if nonZeroDropped then none else some nonZero)
  { split with
    worklist := worklist
    names := engine.names.skip 2
    journal := split.journal ++ (notices zeroDropped zero).toArray
      ++ (notices nonZeroDropped nonZero).toArray
    statistics :=
      { engine.statistics with
        totalSteps := engine.statistics.totalSteps + executed
        slices := engine.statistics.slices + 1
        forks := engine.statistics.forks + 1
        pruned := engine.statistics.pruned + zeroDropped.toNat
          + nonZeroDropped.toNat
        peakLiveStates :=
          max engine.statistics.peakLiveStates worklist.size } }

/-- The engine after a slice of a path that did not end in a fork. -/
def afterUnforked
    (engine : Engine)
    (path : Path)
    (rest : Worklist Path)
    (slice : Slice Path) : Engine :=
  let ran := engine.record
    (.running path.identifier path.state.instructionPointer)
  { ran with
    worklist := slice.outcome.next?.elim rest rest.push
    completed := engine.completed ++ slice.outcome.completed
    faulted := engine.faulted ++ slice.outcome.faultedPaths
    journal := ran.journal ++ (endings path.identifier slice.outcome).toArray
    statistics :=
      { engine.statistics with
        totalSteps := engine.statistics.totalSteps + slice.executed
        slices := engine.statistics.slices + 1 } }

/-- What is not a fork is filed with the paths that it belongs to. -/
theorem afterSlice_unforked
    (engine : Engine)
    (path : Path)
    (rest : Worklist Path)
    (slice : Slice Path)
    (unforked : slice.outcome.forkCount = 0) :
    engine.afterSlice path rest slice =
      engine.afterUnforked path rest slice := by
  obtain ⟨executed, outcome⟩ := slice
  cases outcome with
  | advanced next =>
      simp [afterSlice, afterUnforked, file, record, endings, Outcome.next?,
        Outcome.completed, Outcome.faultedPaths]
  | done last =>
      simp [afterSlice, afterUnforked, file, record, endings, Outcome.next?,
        Outcome.completed, Outcome.faultedPaths]
  | faulted last fault =>
      simp [afterSlice, afterUnforked, file, record, endings, Outcome.next?,
        Outcome.completed, Outcome.faultedPaths, ← Array.toList_inj]
  | forked location zero nonZero => cases unforked

/-- A fork is filed by dropping the sides that are pruned. -/
theorem afterSlice_forked
    (engine : Engine)
    (path : Path)
    (rest : Worklist Path)
    (executed location : Nat)
    (zero nonZero : Path) :
    engine.afterSlice path rest ⟨executed, .forked location zero nonZero⟩ =
      engine.afterFork path rest executed location (engine.isPruned zero)
        (engine.isPruned nonZero) zero nonZero := by
  unfold afterSlice file fileFork
  dsimp only
  rw [inspect_eq]
  dsimp only
  rw [inspect_eq]
  rfl

/-- Looking at a side notes that it was forked off and, if so, that it was
dropped. -/
theorem mem_notices
    {dropped : Bool}
    {path : Path}
    {event : Event}
    (member : event ∈ notices dropped path) :
    (∃ clause, event = .forkedOff path.identifier path.parent clause) ∨
      (dropped = true ∧
        event = .pruned path.identifier path.state.constraint) := by
  unfold notices at member
  rcases List.mem_append.mp member with announced | noted
  · obtain ⟨clause, -, rfl⟩ := List.mem_map.mp announced
    exact .inl ⟨clause, rfl⟩
  · split at noted
    · rename_i isDropped
      exact .inr ⟨isDropped, List.mem_singleton.mp noted⟩
    · cases noted

theorem toList_ite_isPruned (engine : Engine) (path : Path) :
    (if engine.isPruned path then none else some path).toList =
      [path].filter fun side => !engine.isPruned side := by
  cases dropped : engine.isPruned path <;> simp [dropped]

theorem length_dropped_forked
    (engine : Engine)
    (location : Nat)
    (zero nonZero : Path) :
    (engine.dropped (.forked location zero nonZero)).length =
      (engine.isPruned zero).toNat + (engine.isPruned nonZero).toNat := by
  unfold dropped Outcome.sides
  cases zeroDropped : engine.isPruned zero <;>
    cases nonZeroDropped : engine.isPruned nonZero <;>
    simp [zeroDropped, nonZeroDropped]

/-- How the engine after a slice differs from the one before.  The path that
was run has been taken off the worklist, which leaves `rest`. -/
structure Filed
    (before : Engine)
    (rest : Worklist Path)
    (slice : Slice Path)
    (after : Engine) : Prop where
  program : after.program = before.program
  config : after.config = before.config
  completed : after.completed.toList =
    before.completed.toList ++ slice.outcome.completed
  faulted : after.faulted.toList =
    before.faulted.toList ++ slice.outcome.faultedPaths
  pending : after.pending.Perm (before.kept slice.outcome ++ rest.toList)
  totalSteps : after.statistics.totalSteps =
    before.statistics.totalSteps + slice.executed
  forks : after.statistics.forks =
    before.statistics.forks + slice.outcome.forkCount
  pruned : after.statistics.pruned =
    before.statistics.pruned + (before.dropped slice.outcome).length
  names : after.names = before.names.skip (2 * slice.outcome.forkCount)
  /-- A split that is new in the journal is the one that ended the slice. -/
  splits : ∀ {parent location zero nonZero},
    Event.split parent location zero nonZero ∈ after.journal ->
      Event.split parent location zero nonZero ∈ before.journal ∨
        ∃ zeroSide nonZeroSide,
          slice.outcome = .forked location zeroSide nonZeroSide ∧
            zero = zeroSide.identifier ∧ nonZero = nonZeroSide.identifier
  /-- A path that is newly dropped in the journal is a side of that split. -/
  drops : ∀ {identifier constraint},
    Event.pruned identifier constraint ∈ after.journal ->
      Event.pruned identifier constraint ∈ before.journal ∨
        ∃ side ∈ before.dropped slice.outcome, identifier = side.identifier

/-- All paths that come out of a slice and are not dropped. -/
def outcomes (engine : Engine) (outcome : Outcome Path) : List Path :=
  outcome.completed ++ outcome.faultedPaths.map FaultedPath.path
    ++ engine.kept outcome

/-- The paths that are not run in a turn. -/
def others (engine : Engine) (rest : Worklist Path) : List Path :=
  engine.completed.toList ++ engine.faulted.toList.map FaultedPath.path
    ++ rest.toList

theorem perm_paths_of_taken
    {engine : Engine}
    {path : Path}
    {rest : Worklist Path}
    (taken : engine.worklist.toList.Perm (path :: rest.toList)) :
    engine.paths.Perm (path :: engine.others rest) :=
  (taken.append_left _).trans List.perm_middle

/-- A turn replaces the path that was run by what came out of its slice. -/
theorem Filed.perm_paths
    {before after : Engine}
    {rest : Worklist Path}
    {slice : Slice Path}
    (filed : Filed before rest slice after) :
    after.paths.Perm (before.outcomes slice.outcome ++ before.others rest) := by
  unfold paths outcomes others
  rw [filed.completed, filed.faulted, List.map_append]
  refine (filed.pending.append_left _).trans ?_
  rw [← Multiset.coe_eq_coe]
  simp only [← Multiset.coe_add]
  abel

/-- Without a fork only the run and the end of the path are noted. -/
theorem mem_journal_afterUnforked
    {engine : Engine}
    {path : Path}
    {rest : Worklist Path}
    {slice : Slice Path}
    {event : Event}
    (member : event ∈ (engine.afterUnforked path rest slice).journal) :
    event ∈ engine.journal ∨
      event = .running path.identifier path.state.instructionPointer ∨
      (∃ constraint, event = .completed path.identifier constraint) ∨
      ∃ fault, event = .stepFaulted path.identifier fault ∨
        event = .faulted path.identifier fault := by
  have noted : event ∈ engine.journal ∨
      event = .running path.identifier path.state.instructionPointer ∨
        event ∈ endings path.identifier slice.outcome := by
    simpa [afterUnforked, record, or_assoc] using member
  exact noted.imp_right (Or.imp_right mem_endings)

/-- A slice that does not end in a fork is filed in this way. -/
theorem filed_afterUnforked
    (engine : Engine)
    (path : Path)
    (rest : Worklist Path)
    (slice : Slice Path)
    (unforked : slice.outcome.forkCount = 0) :
    Filed engine rest slice (engine.afterUnforked path rest slice) := by
  have noSides := Outcome.sides_of_unforked unforked
  refine ⟨rfl, rfl, ?_, ?_, ?_, rfl, ?_, ?_, ?_, ?_, ?_⟩
  · simp [afterUnforked]
  · simp [afterUnforked]
  · rw [kept_of_unforked engine unforked]
    unfold pending afterUnforked
    cases slice.outcome.next? with
    | none => exact List.Perm.refl _
    | some next =>
        simp only [Option.elim_some, Option.toList_some, Worklist.toList_push]
        exact List.perm_append_comm
  · simp [afterUnforked, record, unforked]
  · simp [afterUnforked, dropped, noSides]
  · simp [afterUnforked, record, unforked]
  · intro parent location zero nonZero member
    rcases mem_journal_afterUnforked member with
      old | impossible | ⟨_, impossible⟩ | ⟨_, impossible | impossible⟩
    · exact .inl old
    all_goals cases impossible
  · intro identifier constraint member
    rcases mem_journal_afterUnforked member with
      old | impossible | ⟨_, impossible⟩ | ⟨_, impossible | impossible⟩
    · exact .inl old
    all_goals cases impossible

/-- A slice that ends in a fork is filed in this way. -/
theorem filed_afterFork
    (engine : Engine)
    (path : Path)
    (rest : Worklist Path)
    (executed location : Nat)
    (zero nonZero : Path) :
    Filed engine rest ⟨executed, .forked location zero nonZero⟩
      (engine.afterFork path rest executed location (engine.isPruned zero)
        (engine.isPruned nonZero) zero nonZero) := by
  refine ⟨rfl, rfl, ?_, ?_, ?_, rfl, rfl, ?_, rfl, ?_, ?_⟩
  · simp [afterFork, record, Outcome.completed]
  · simp [afterFork, record, Outcome.faultedPaths]
  · refine (Worklist.perm_pushSides _ _ _).trans ?_
    rw [toList_ite_isPruned, toList_ite_isPruned, ← List.filter_append]
    exact List.Perm.refl _
  · rw [length_dropped_forked, ← Nat.add_assoc]
    rfl
  · intro parent place zeroName nonZeroName member
    simp only [afterFork, record, Array.mem_append, Array.mem_push,
      List.mem_toArray] at member
    rcases member with (((old | new) | new) | new) | new
    · exact .inl old
    · cases new
    · cases new
      exact .inr ⟨zero, nonZero, rfl, rfl, rfl⟩
    · rcases mem_notices new with ⟨clause, impossible⟩ | ⟨-, impossible⟩ <;>
        cases impossible
    · rcases mem_notices new with ⟨clause, impossible⟩ | ⟨-, impossible⟩ <;>
        cases impossible
  · intro identifier constraint member
    simp only [afterFork, record, Array.mem_append, Array.mem_push,
      List.mem_toArray] at member
    rcases member with (((old | new) | new) | new) | new
    · exact .inl old
    · cases new
    · cases new
    · rcases mem_notices new with ⟨clause, impossible⟩ | ⟨dropped, same⟩
      · cases impossible
      · cases same
        exact .inr ⟨zero,
          List.mem_filter.mpr ⟨List.mem_cons_self, dropped⟩, rfl⟩
    · rcases mem_notices new with ⟨clause, impossible⟩ | ⟨dropped, same⟩
      · cases impossible
      · cases same
        exact .inr ⟨nonZero,
          List.mem_filter.mpr
            ⟨List.mem_cons_of_mem _ List.mem_cons_self, dropped⟩, rfl⟩

/-- What a slice comes to is filed in this way. -/
theorem filed_afterSlice
    (engine : Engine)
    (path : Path)
    (rest : Worklist Path)
    (slice : Slice Path) :
    Filed engine rest slice (engine.afterSlice path rest slice) := by
  obtain ⟨executed, outcome⟩ := slice
  cases outcome with
  | forked location zero nonZero =>
      rw [afterSlice_forked]
      exact filed_afterFork engine path rest executed location zero nonZero
  | _ =>
      rw [afterSlice_unforked engine path rest _ rfl]
      exact filed_afterUnforked engine path rest _ rfl

/-- What a slice of a path can come to. -/
@[elab_as_elim]
theorem runSlice_cases
    {engine : Engine}
    {path : Path}
    {motive : Slice Path -> Prop}
    (budget : Nat)
    (advanced : ∀ {count last},
      State.Runs engine.program engine.config.outputPolicy count path.state
          last ->
        motive ⟨count, .advanced { path with state := last }⟩)
    (done : ∀ {count last},
      State.Runs engine.program engine.config.outputPolicy count path.state
          last ->
        last.isDone engine.program = true ->
          motive ⟨count, .done { path with state := last }⟩)
    (forked : ∀ {count last zero nonZero},
      State.Runs engine.program engine.config.outputPolicy count path.state
          last ->
        last.effect? engine.program engine.config.outputPolicy =
            some (.split zero nonZero) ->
          motive ⟨count + 1, .forked last.instructionPointer
            (path.child engine.names.next zero)
            (path.child (engine.names.skip 1).next nonZero)⟩)
    (faulted : ∀ {count last reason},
      State.Runs engine.program engine.config.outputPolicy count path.state
          last ->
        last.effect? engine.program engine.config.outputPolicy =
            some (.fault last.countStep reason) ->
          motive ⟨count + 1, .faulted { path with state := last.countStep }
            ⟨last.instructionPointer, reason⟩⟩) :
    motive (engine.runSlice budget path) := by
  have reaches := State.reaches_step engine.program engine.config.outputPolicy
    budget path.state
  unfold runSlice Path.step
  generalize path.state.step engine.program engine.config.outputPolicy budget =
    slice at reaches
  cases reaches with
  | advanced runs notDone => exact advanced runs
  | done runs isDone => exact done runs isDone
  | forked runs effect_eq => exact forked runs effect_eq
  | faulted runs effect_eq =>
      cases State.extends_of_effect? effect_eq with
      | fault reason => exact faulted runs effect_eq

/-! ## Advances -/

/-- The work is as before: only the watchdog was asked or the journal was
continued with events that name no path. -/
structure Rests (before after : Engine) : Prop where
  program : after.program = before.program
  config : after.config = before.config
  pending : after.pending = before.pending
  completed : after.completed = before.completed
  faulted : after.faulted = before.faulted
  statistics : after.statistics = before.statistics
  names : after.names = before.names
  journal : ∀ event ∈ after.journal,
    event ∈ before.journal ∨ event.paths = []

theorem rests_record
    (event : Event)
    (engine : Engine)
    (namesNoPath : event.paths = []) :
    Rests engine (engine.record event) := by
  refine ⟨rfl, rfl, rfl, rfl, rfl, rfl, rfl, ?_⟩
  intro other member
  rcases Array.mem_push.mp member with old | new
  · exact .inl old
  · exact .inr (new ▸ namesNoPath)

theorem rests_truncate (reason : Truncation) (engine : Engine) :
    Rests engine (engine.truncate reason) := by
  have recorded := rests_record
    (.truncated engine.worklist.size reason) engine rfl
  exact ⟨rfl, rfl, rfl, rfl, rfl, rfl, rfl, recorded.journal⟩

/-- A path that is put back is where it was. -/
theorem rests_putBack
    {engine : Engine}
    {path : Path}
    {rest : Worklist Path}
    (taken : engine.worklist.take? = some (path, rest)) :
    Rests engine (engine.putBack path rest) :=
  ⟨rfl, rfl, Worklist.toList_putBack_of_take? taken, rfl, rfl, rfl, rfl,
    fun _ member => .inl member⟩

theorem worklist_poll (turns : Nat) (engine : Engine) :
    (Call.poll turns engine).2.worklist = engine.worklist := by
  unfold Call.poll
  split <;> rfl

theorem rests_poll (turns : Nat) (engine : Engine) :
    Rests engine (Call.poll turns engine).2 := by
  unfold Call.poll
  split
  · exact ⟨rfl, rfl, rfl, rfl, rfl, rfl, rfl, fun _ member => .inl member⟩
  · exact ⟨rfl, rfl, rfl, rfl, rfl, rfl, rfl, fun _ member => .inl member⟩

/-- The engine rests or runs a path. -/
inductive Advances : Engine -> Engine -> Prop
  | rests {before after : Engine} (rests : Rests before after) :
      Advances before after
  | runs
      {before : Engine}
      {path : Path}
      {rest : Worklist Path}
      (budget : Nat)
      (taken : before.worklist.take? = some (path, rest)) :
      Advances before
        (before.afterSlice path rest (before.runSlice budget path))

/-- The engine to which a turn leads. -/
def Turn.engine : Turn -> Engine
  | .finished engine => engine
  | .truncated _ engine => engine
  | .next call => call.engine

open Relation in
/-- A turn is a sequence of advances. -/
theorem advances_turn (call : Call) :
    ReflTransGen Advances call.engine call.turn.engine := by
  obtain ⟨engine, turns, remaining⟩ := call
  unfold Call.turn
  dsimp only
  split
  · exact .single (.rests (rests_record _ engine rfl))
  · rename_i path rest taken
    have polled := rests_poll turns engine
    rw [← worklist_poll turns engine] at taken
    generalize Call.poll turns engine = answer at polled taken
    obtain ⟨stopped, asked⟩ := answer
    dsimp only at polled taken ⊢
    have first : ReflTransGen Advances engine asked :=
      .single (.rests polled)
    have putBack := first.tail (.rests (rests_putBack taken))
    split
    · exact putBack.tail (.rests (rests_truncate _ _))
    split
    · exact putBack.tail (.rests (rests_truncate _ _))
    split
    · exact putBack.tail (.rests (rests_truncate _ _))
    have ran := first.tail (.runs (Call.budget remaining asked) taken)
    unfold Call.runTurn
    dsimp only
    split
    · exact ran.tail (.rests (rests_truncate _ _))
    · exact ran

open Relation in
/-- A call is a sequence of advances. -/
theorem advances_complete (call : Call) :
    ReflTransGen Advances call.engine call.complete.2 := by
  fun_induction Call.complete call with
  | case1 call engine turned =>
      have advances := advances_turn call
      rwa [turned] at advances
  | case2 call reason engine turned =>
      have advances := advances_turn call
      rwa [turned] at advances
  | case3 call next turned inductionHypothesis =>
      have advances := advances_turn call
      rw [turned] at advances
      exact advances.trans inductionHypothesis

/-- The call at its beginning. -/
def firstTurn (engine : Engine) : Call :=
  { engine :=
      { engine.record (.started engine.program.size engine.worklist.size) with
        truncation := none }
    remaining := engine.config.maximumTotalSteps }

theorem execute_eq_complete (engine : Engine) :
    engine.execute = engine.firstTurn.complete := rfl

theorem rests_firstTurn (engine : Engine) :
    Rests engine engine.firstTurn.engine := by
  have recorded := rests_record
    (.started engine.program.size engine.worklist.size) engine rfl
  exact ⟨rfl, rfl, rfl, rfl, rfl, rfl, rfl, recorded.journal⟩

open Relation in
theorem advances_execute (engine : Engine) :
    ReflTransGen Advances engine engine.execute.2 := by
  rw [execute_eq_complete]
  exact .head (.rests (rests_firstTurn engine))
    (advances_complete engine.firstTurn)

theorem complete_of_next
    {call next : Call}
    (turned : call.turn = .next next) :
    call.complete = next.complete := by
  rw [Call.complete]
  split
  · rename_i other
    cases other.symm.trans turned
  · rename_i other
    cases other.symm.trans turned
  · rename_i other
    cases other.symm.trans turned
    rfl

theorem complete_of_truncated
    {call : Call}
    {reason : Truncation}
    {engine : Engine}
    (turned : call.turn = .truncated reason engine) :
    call.complete = (some reason, engine) := by
  rw [Call.complete]
  split
  · rename_i other
    cases other.symm.trans turned
  · rename_i other
    cases other.symm.trans turned
    rfl
  · rename_i other
    cases other.symm.trans turned

theorem complete_of_finished
    {call : Call}
    {engine : Engine}
    (turned : call.turn = .finished engine) :
    call.complete = (none, engine) := by
  rw [Call.complete]
  split
  · rename_i other
    cases other.symm.trans turned
    rfl
  · rename_i other
    cases other.symm.trans turned
  · rename_i other
    cases other.symm.trans turned

/-- A turn that ends in a fork, when it is known which sides are pruned. -/
theorem complete_of_forked
    {call : Call}
    {engine : Engine}
    {turns remaining executed location : Nat}
    {path zero nonZero : Path}
    {rest : Worklist Path}
    {zeroDropped nonZeroDropped : Bool}
    (running : call.turn = Call.runTurn engine turns remaining path rest)
    (slice_eq : engine.runSlice (Call.budget remaining engine) path =
      ⟨executed, .forked location zero nonZero⟩)
    (zero_eq : engine.isPruned zero = zeroDropped)
    (nonZero_eq : engine.isPruned nonZero = nonZeroDropped)
    (fits : ¬engine.config.maximumLiveStates <
      (engine.afterFork path rest executed location zeroDropped nonZeroDropped
        zero nonZero).worklist.size) :
    call.complete = Call.complete
      ⟨engine.afterFork path rest executed location zeroDropped nonZeroDropped
        zero nonZero, turns + 1, remaining - executed⟩ := by
  have noOverflow : (engine.afterFork path rest executed location zeroDropped
      nonZeroDropped zero nonZero).overflow? (.forked location zero nonZero) =
        none := if_neg fits
  apply complete_of_next
  rw [running]
  unfold Call.runTurn
  dsimp only
  rw [slice_eq, afterSlice_forked, zero_eq, nonZero_eq]
  dsimp only
  rw [noOverflow]

/-- A call that is not stopped leaves nothing to be run. -/
theorem pending_of_complete
    {call : Call}
    (finished : call.complete.1 = none) :
    call.complete.2.pending = [] := by
  fun_induction Call.complete call with
  | case1 call engine turned =>
      obtain ⟨before, turns, remaining⟩ := call
      unfold Call.turn at turned
      dsimp only at turned
      split at turned
      · rename_i nothing
        cases turned
        exact Worklist.toList_of_take?_eq_none nothing
      · split at turned
        · cases turned
        split at turned
        · cases turned
        split at turned
        · cases turned
        unfold Call.runTurn at turned
        dsimp only at turned
        split at turned <;> cases turned
  | case2 call reason engine turned => cases finished
  | case3 call next turned inductionHypothesis =>
      exact inductionHypothesis finished

theorem pending_of_execute
    {engine final : Engine}
    (finished : engine.execute = (none, final)) :
    final.pending = [] := by
  have ended : engine.execute.1 = none := congrArg Prod.fst finished
  have final_eq : engine.execute.2 = final := congrArg Prod.snd finished
  rw [← final_eq]
  exact pending_of_complete ended

theorem isComplete_iff {engine : Engine} :
    engine.isComplete = true ↔ engine.pending = [] := by
  unfold isComplete Worklist.isEmpty pending
  rw [beq_iff_eq, ← Worklist.length_toList]
  exact List.length_eq_zero_iff

/-- A call that is not stopped early completes the exploration. -/
theorem isComplete_of_execute
    {engine : Engine}
    (finished : engine.execute.1 = none) :
    engine.execute.2.isComplete = true :=
  isComplete_iff.mpr (pending_of_execute (Prod.ext finished rfl))

/-! ## Histories -/

/-- The engine after a number of further calls. -/
def afterCalls : Nat -> Engine -> Engine
  | 0, engine => engine
  | calls + 1, engine => (engine.afterCalls calls).execute.2

/-- The engines that a number of calls lead to, however the calls end and
wherever the names of the paths come from. -/
inductive Reached
    (program : Program)
    (config : Config)
    (watchdog : Watchdog) : Engine -> Prop
  | created (names : Names) :
      Reached program config watchdog (create program config watchdog names)
  | executed
      {engine : Engine}
      (reached : Reached program config watchdog engine) :
      Reached program config watchdog engine.execute.2

/-- The engine before anything is in its journal. -/
def fresh
    (program : Program)
    (config : Config)
    (watchdog : Watchdog)
    (names : Names) : Engine :=
  { program := program
    config := config
    watchdog := watchdog
    worklist :=
      (Worklist.empty config.strategy).push
        (Path.initial names config.tapeCapacity)
    names := names.skip 1 }

@[simp] theorem pending_fresh
    (program : Program)
    (config : Config)
    (watchdog : Watchdog)
    (names : Names) :
    (fresh program config watchdog names).pending =
      [Path.initial names config.tapeCapacity] :=
  Worklist.toList_push _ _

/-- A new engine has at most noted that it uses another matching than the
configuration asks for. -/
theorem rests_create
    (program : Program)
    (config : Config)
    (watchdog : Watchdog)
    (names : Names) :
    Rests (fresh program config watchdog names)
      (create program config watchdog names) := by
  unfold create
  dsimp only
  split
  · exact ⟨rfl, rfl, rfl, rfl, rfl, rfl, rfl, fun _ member => .inl member⟩
  · exact rests_record _ (fresh program config watchdog names) rfl

open Relation in
/-- Every number of calls is a sequence of advances. -/
theorem Reached.advances
    {program : Program}
    {config : Config}
    {watchdog : Watchdog}
    {engine : Engine}
    (reached : Reached program config watchdog engine) :
    ∃ names,
      ReflTransGen Advances (fresh program config watchdog names) engine := by
  induction reached with
  | created names =>
      have created := rests_create program config watchdog names
      exact ⟨names, .single (.rests created)⟩
  | @executed engine reached inductionHypothesis =>
      obtain ⟨names, earlier⟩ := inductionHypothesis
      exact ⟨names, earlier.trans (advances_execute engine)⟩

open Relation in
/-- What is kept when the engine rests and when it runs a path is kept by every
sequence of advances. -/
theorem invariant_advances
    {program : Program}
    {config : Config}
    (property : Engine -> Prop)
    (rests : ∀ {before after},
      property before -> Rests before after -> property after)
    (runs : ∀ {before path rest after} (budget : Nat),
      before.program = program -> before.config = config ->
        property before -> before.worklist.toList.Perm (path :: rest.toList) ->
          Filed before rest (before.runSlice budget path) after ->
            property after)
    {before after : Engine}
    (advances : ReflTransGen Advances before after)
    (program_eq : before.program = program)
    (config_eq : before.config = config)
    (holds : property before) :
    after.program = program ∧ after.config = config ∧ property after := by
  -- The program and the configuration stay the same, which `runs` relies on.
  induction advances with
  | refl => exact ⟨program_eq, config_eq, holds⟩
  | @tail before after earlier last stillHolds =>
      obtain ⟨program_eq, config_eq, holds⟩ := stillHolds
      cases last with
      | rests resting =>
          exact ⟨resting.program.trans program_eq,
            resting.config.trans config_eq, rests holds resting⟩
      | @runs path rest budget taken =>
          have filed := filed_afterSlice before path rest
            (before.runSlice budget path)
          exact ⟨filed.program.trans program_eq,
            filed.config.trans config_eq,
            runs budget program_eq config_eq holds
              (Worklist.perm_of_take? taken) filed⟩

/-- An invariant of the engine: it holds before the first call, and it is kept
when the engine rests and when it runs a path. -/
theorem Reached.invariant
    {program : Program}
    {config : Config}
    {watchdog : Watchdog}
    (property : Engine -> Prop)
    (initially : ∀ names, property (fresh program config watchdog names))
    (rests : ∀ {before after},
      property before -> Rests before after -> property after)
    (runs : ∀ {before path rest after} (budget : Nat),
      before.program = program -> before.config = config ->
        property before -> before.worklist.toList.Perm (path :: rest.toList) ->
          Filed before rest (before.runSlice budget path) after ->
            property after)
    {engine : Engine}
    (reached : Reached program config watchdog engine) :
    property engine := by
  obtain ⟨names, advances⟩ := reached.advances
  exact (invariant_advances property rests runs advances rfl rfl
    (initially names)).2.2

end Engine
end SymbolicTape
