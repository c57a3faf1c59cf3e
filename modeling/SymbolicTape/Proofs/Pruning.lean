import SymbolicTape.Proofs.PrunedSurvey

/-!
# Pruning is exact

Dropping impossible sides changes nothing but the work.  An engine that prunes
keeps possible paths only, its journal has a side of every fork that was not
dropped, and what it finds is what an engine that does not prune finds, less the
impossible paths.

The journal names paths by their identifiers.  If no identifier was handed out
twice, then the two sides of a fork can be told from those of all others.
-/

namespace SymbolicTape

/-! ## Forks in the journal -/

theorem Names.Distinct.of_skip
    {names : Names}
    {further : Nat}
    (distinct : (names.skip further).Distinct) :
    names.Distinct := by
  intro first firstBefore second secondBefore
  exact distinct first (Nat.lt_add_right further firstBefore) second
    (Nat.lt_add_right further secondBefore)

/-- The leading digits tell the first identifiers apart. -/
theorem Names.distinct_counting
    {count : Nat}
    (few : count ≤ Nat.pow 2 32) :
    (counting count).Distinct := by
  intro first firstBefore second secondBefore same
  have value_eq := congrArg (fun identifier => identifier.value.toNat) same
  simp only [counting, BitVec.toNat_ofNat, Nat.pow_eq] at *
  omega

namespace Engine

/-- The sides of a fork get the next two names. -/
theorem identifiers_of_forked
    {engine : Engine}
    {path zero nonZero : Path}
    {budget location : Nat}
    (forked : (engine.runSlice budget path).outcome =
      .forked location zero nonZero) :
    zero.identifier = engine.names.nth engine.names.count ∧
      nonZero.identifier = engine.names.nth (engine.names.count + 1) := by
  revert forked
  refine runSlice_cases budget ?_ ?_ ?_ ?_
  · exact fun _ => nofun
  · exact fun _ _ => nofun
  · intro count last zeroState nonZeroState runs effect_eq forked
    cases forked
    exact ⟨rfl, rfl⟩
  · exact fun _ _ => nofun

/-- The journal says that a path was dropped. -/
def Dropped (engine : Engine) (identifier : Identifier) : Prop :=
  ∃ constraint, Event.pruned identifier constraint ∈ engine.journal

/-- The journal says that a path was split in two. -/
def Split (engine : Engine) (zero nonZero : Identifier) : Prop :=
  ∃ parent location,
    Event.split parent location zero nonZero ∈ engine.journal

/-- The journal tells the forks apart, and none of them lost both sides. -/
structure Attributed (engine : Engine) : Prop where
  /-- Only paths that were named have been dropped. -/
  dropped : ∀ {identifier}, engine.Dropped identifier ->
    ∃ index < engine.names.count, identifier = engine.names.nth index
  /-- The sides of a fork were named one after the other. -/
  split : ∀ {zero nonZero}, engine.Split zero nonZero ->
    ∃ index, index + 1 < engine.names.count ∧
      zero = engine.names.nth index ∧ nonZero = engine.names.nth (index + 1)
  /-- A side of every fork was kept. -/
  kept : engine.names.Distinct -> ∀ {zero nonZero},
    engine.Split zero nonZero ->
      ¬(engine.Dropped zero ∧ engine.Dropped nonZero)

section Filed

variable {before after : Engine} {path : Path} {rest : Worklist Path}
variable {budget : Nat}

/-- What is newly dropped is a side of the fork and has one of the next two
names. -/
theorem Filed.dropped_or
    {identifier : Identifier}
    (filed : Filed before rest (before.runSlice budget path) after)
    (dropped : after.Dropped identifier) :
    before.Dropped identifier ∨
      ∃ location zero nonZero,
        (before.runSlice budget path).outcome =
            .forked location zero nonZero ∧
          (identifier = before.names.nth before.names.count ∧
              before.isPruned zero = true ∨
            identifier = before.names.nth (before.names.count + 1) ∧
              before.isPruned nonZero = true) := by
  obtain ⟨constraint, member⟩ := dropped
  rcases filed.drops member with old | ⟨side, isDropped, rfl⟩
  · exact .inl ⟨constraint, old⟩
  · right
    unfold Engine.dropped at isDropped
    obtain ⟨isSide, pruned⟩ := List.mem_filter.mp isDropped
    cases outcome_eq : (before.runSlice budget path).outcome with
    | forked location zero nonZero =>
        rw [outcome_eq] at isSide
        obtain ⟨zeroName, nonZeroName⟩ := identifiers_of_forked outcome_eq
        refine ⟨location, zero, nonZero, rfl, ?_⟩
        rcases List.mem_cons.mp isSide with rfl | isSide
        · exact .inl ⟨zeroName, pruned⟩
        · rw [List.mem_singleton.mp isSide] at pruned ⊢
          exact .inr ⟨nonZeroName, pruned⟩
    | _ =>
        rw [outcome_eq] at isSide
        cases isSide

/-- A new split is that of the fork, whose sides have the next two names. -/
theorem Filed.split_or
    {zero nonZero : Identifier}
    (filed : Filed before rest (before.runSlice budget path) after)
    (split : after.Split zero nonZero) :
    before.Split zero nonZero ∨
      ∃ location zeroSide nonZeroSide,
        (before.runSlice budget path).outcome =
            .forked location zeroSide nonZeroSide ∧
          zero = before.names.nth before.names.count ∧
            nonZero = before.names.nth (before.names.count + 1) := by
  obtain ⟨parent, location, member⟩ := split
  rcases filed.splits member with
    old | ⟨zeroSide, nonZeroSide, forked, rfl, rfl⟩
  · exact .inl ⟨parent, location, old⟩
  · exact .inr ⟨location, zeroSide, nonZeroSide, forked,
      identifiers_of_forked forked⟩

theorem Filed.count_of_forked
    {location : Nat}
    {zero nonZero : Path}
    (filed : Filed before rest (before.runSlice budget path) after)
    (forked : (before.runSlice budget path).outcome =
      .forked location zero nonZero) :
    after.names.count = before.names.count + 2 := by
  rw [filed.names, forked]
  rfl

/-- The names of the sides are told apart from each other and from all before
them. -/
theorem Filed.eq_of_nth_eq
    {location first second : Nat}
    {zero nonZero : Path}
    (filed : Filed before rest (before.runSlice budget path) after)
    (distinct : after.names.Distinct)
    (forked : (before.runSlice budget path).outcome =
      .forked location zero nonZero)
    (firstNamed : first < before.names.count + 2)
    (secondNamed : second < before.names.count + 2)
    (same : before.names.nth first = before.names.nth second) :
    first = second := by
  rw [filed.names, forked] at distinct
  exact distinct first firstNamed second secondNamed same

/-- A path that was named before the slice was dropped before it. -/
theorem Filed.dropped_of_lt
    {index : Nat}
    (filed : Filed before rest (before.runSlice budget path) after)
    (distinct : after.names.Distinct)
    (dropped : after.Dropped (before.names.nth index))
    (namedBefore : index < before.names.count) :
    before.Dropped (before.names.nth index) := by
  rcases filed.dropped_or dropped with
    old | ⟨location, zero, nonZero, forked, ⟨same, -⟩ | ⟨same, -⟩⟩
  · exact old
  · have index_eq :=
      filed.eq_of_nth_eq distinct forked (by omega) (by omega) same
    omega
  · have index_eq :=
      filed.eq_of_nth_eq distinct forked (by omega) (by omega) same
    omega

/-- The sides of the fork are dropped if the engine drops them. -/
theorem Attributed.isPruned_of_dropped
    {location : Nat}
    {zero nonZero : Path}
    (attributed : before.Attributed)
    (filed : Filed before rest (before.runSlice budget path) after)
    (distinct : after.names.Distinct)
    (forked : (before.runSlice budget path).outcome =
      .forked location zero nonZero) :
    (after.Dropped (before.names.nth before.names.count) ->
        before.isPruned zero = true) ∧
      (after.Dropped (before.names.nth (before.names.count + 1)) ->
        before.isPruned nonZero = true) := by
  constructor
  · intro dropped
    rcases filed.dropped_or dropped with
      old | ⟨_, _, _, same, ⟨-, pruned⟩ | ⟨impossible, -⟩⟩
    · obtain ⟨index, namedBefore, same⟩ := attributed.dropped old
      have index_eq :=
        filed.eq_of_nth_eq distinct forked (by omega) (by omega) same
      omega
    · cases forked.symm.trans same
      exact pruned
    · have index_eq :=
        filed.eq_of_nth_eq distinct forked (by omega) (by omega) impossible
      omega
  · intro dropped
    rcases filed.dropped_or dropped with
      old | ⟨_, _, _, same, ⟨impossible, -⟩ | ⟨-, pruned⟩⟩
    · obtain ⟨index, namedBefore, same⟩ := attributed.dropped old
      have index_eq :=
        filed.eq_of_nth_eq distinct forked (by omega) (by omega) same
      omega
    · have index_eq :=
        filed.eq_of_nth_eq distinct forked (by omega) (by omega) impossible
      omega
    · cases forked.symm.trans same
      exact pruned

/-- Filing a slice keeps the journal so, if no fork loses both sides. -/
theorem Attributed.filed
    (attributed : before.Attributed)
    (filed : Filed before rest (before.runSlice budget path) after)
    (oneKept : ∀ {location zero nonZero},
      (before.runSlice budget path).outcome = .forked location zero nonZero ->
        ¬(before.isPruned zero = true ∧ before.isPruned nonZero = true)) :
    after.Attributed := by
  have nth_eq : after.names.nth = before.names.nth := by rw [filed.names]; rfl
  have grows : before.names.count ≤ after.names.count := by
    rw [filed.names]
    exact Nat.le_add_right _ _
  refine ⟨?_, ?_, ?_⟩
  · intro identifier dropped
    rw [nth_eq]
    rcases filed.dropped_or dropped with
      old | ⟨location, zero, nonZero, forked, names⟩
    · obtain ⟨index, namedBefore, rfl⟩ := attributed.dropped old
      exact ⟨index, by omega, rfl⟩
    · have count_eq := filed.count_of_forked forked
      rcases names with ⟨rfl, -⟩ | ⟨rfl, -⟩
      · exact ⟨before.names.count, by omega, rfl⟩
      · exact ⟨before.names.count + 1, by omega, rfl⟩
  · intro zero nonZero split
    rw [nth_eq]
    rcases filed.split_or split with
      old | ⟨location, zeroSide, nonZeroSide, forked, rfl, rfl⟩
    · obtain ⟨index, namedBefore, rfl, rfl⟩ := attributed.split old
      exact ⟨index, by omega, rfl, rfl⟩
    · have count_eq := filed.count_of_forked forked
      exact ⟨before.names.count, by omega, rfl, rfl⟩
  · rintro distinct zero nonZero split ⟨zeroDropped, nonZeroDropped⟩
    rcases filed.split_or split with
      old | ⟨location, zeroSide, nonZeroSide, forked, rfl, rfl⟩
    · have distinctBefore : before.names.Distinct :=
        .of_skip (filed.names ▸ distinct)
      obtain ⟨index, namedBefore, rfl, rfl⟩ := attributed.split old
      exact attributed.kept distinctBefore old
        ⟨filed.dropped_of_lt distinct zeroDropped (by omega),
          filed.dropped_of_lt distinct nonZeroDropped namedBefore⟩
    · obtain ⟨zeroPruned, nonZeroPruned⟩ :=
        attributed.isPruned_of_dropped filed distinct forked
      exact oneKept forked
        ⟨zeroPruned zeroDropped, nonZeroPruned nonZeroDropped⟩

end Filed

/-- An engine that rests adds nothing to the journal that names a path. -/
theorem Attributed.rests
    {before after : Engine}
    (attributed : before.Attributed)
    (rests : Rests before after) :
    after.Attributed := by
  have droppedBefore {identifier} (dropped : after.Dropped identifier) :
      before.Dropped identifier := by
    obtain ⟨constraint, member⟩ := dropped
    rcases rests.journal _ member with old | impossible
    · exact ⟨constraint, old⟩
    · cases impossible
  have splitBefore {zero nonZero} (split : after.Split zero nonZero) :
      before.Split zero nonZero := by
    obtain ⟨parent, location, member⟩ := split
    rcases rests.journal _ member with old | impossible
    · exact ⟨parent, location, old⟩
    · cases impossible
  refine ⟨?_, ?_, ?_⟩
  · intro identifier dropped
    rw [rests.names]
    exact attributed.dropped (droppedBefore dropped)
  · intro zero nonZero split
    rw [rests.names]
    exact attributed.split (splitBefore split)
  · rintro distinct zero nonZero split ⟨zeroDropped, nonZeroDropped⟩
    exact attributed.kept (rests.names ▸ distinct) (splitBefore split)
      ⟨droppedBefore zeroDropped, droppedBefore nonZeroDropped⟩

/-- A possible path does not lose both its sides. -/
theorem not_isPruned_both
    {engine : Engine}
    {path zero nonZero : Path}
    {budget location : Nat}
    (prunes : engine.config.pruneInfeasible = true)
    (shaped : path.state.WellShaped)
    (possible : path.state.Possible)
    (forked : (engine.runSlice budget path).outcome =
      .forked location zero nonZero) :
    ¬(engine.isPruned zero = true ∧ engine.isPruned nonZero = true) := by
  rintro ⟨zeroPruned, nonZeroPruned⟩
  have steps := steps_runSlice engine budget path 0
  rw [prunes] at steps
  have drops_le := ((Survey.wellPruned_waiting shaped possible).steps
    steps).drops_le
  simp [surveySlice, forked, dropped, Outcome.sides, Outcome.forkCount,
    zeroPruned, nonZeroPruned] at drops_le

open Relation in
/-- An engine that prunes keeps possible paths only, and a side of every
fork. -/
theorem wellPruned_advances
    {program : Program}
    {config : Config}
    {watchdog : Watchdog}
    {names : Names}
    {engine : Engine}
    (prunes : config.pruneInfeasible = true)
    (advances :
      ReflTransGen Advances (fresh program config watchdog names) engine) :
    engine.config = config ∧ engine.survey.WellPruned ∧ engine.Attributed := by
  have initially : (fresh program config watchdog names).survey.WellPruned ∧
      (fresh program config watchdog names).Attributed := by
    refine ⟨Survey.wellPruned_waiting
      (State.wellShaped_initial config.tapeCapacity)
      (State.possible_initial config.tapeCapacity), ?_, ?_, ?_⟩
    · rintro identifier ⟨constraint, member⟩
      simp [fresh] at member
    · rintro zero nonZero ⟨parent, location, member⟩
      simp [fresh] at member
    · rintro distinct zero nonZero ⟨parent, location, member⟩
      simp [fresh] at member
  have program_eq : (fresh program config watchdog names).program = program :=
    rfl
  have config_eq : (fresh program config watchdog names).config = config := rfl
  refine (invariant_advances
    (fun engine => engine.survey.WellPruned ∧ engine.Attributed)
    ?_ ?_ advances program_eq config_eq initially).2
  · rintro before after ⟨wellPruned, attributed⟩ rests
    exact ⟨rests.survey_eq ▸ wellPruned, attributed.rests rests⟩
  · rintro before path rest after budget program_eq config_eq
      ⟨wellPruned, attributed⟩ taken filed
    have prunesBefore : before.config.pruneInfeasible = true := by
      rw [config_eq, prunes]
    have steps := steps_runSlice before budget path (before.surveyWith rest)
    rw [survey_eq_waiting_add taken] at wellPruned
    rw [prunesBefore] at steps
    obtain ⟨shaped, -⟩ := Survey.every_of_waiting_add wellPruned.shaped
    obtain ⟨possible, -⟩ := Survey.every_of_waiting_add wellPruned.possible
    refine ⟨?_, attributed.filed filed ?_⟩
    · rw [filed.survey_eq]
      exact wellPruned.steps steps
    · intro location zero nonZero forked
      exact not_isPruned_both prunesBefore shaped possible forked

/-- A property of the survey of an engine is one of its paths. -/
theorem forall_paths_of_every
    {engine : Engine}
    {property : State -> Prop}
    (every : engine.survey.Every property) :
    ∀ path ∈ engine.paths, property path.state := by
  intro path member
  unfold paths at member
  rcases List.mem_append.mp member with ended | waiting
  · rcases List.mem_append.mp ended with completed | faulted
    · exact every.completed _ (List.mem_map_of_mem completed)
    · obtain ⟨entry, isEntry, rfl⟩ := List.mem_map.mp faulted
      exact every.faulted _ (List.mem_map_of_mem isEntry)
  · exact every.pending _ (List.mem_map_of_mem waiting)

open Relation in
/-- At no time does a path that waits lose both sides of its next fork. -/
theorem not_isPruned_both_of_advances
    {program : Program}
    {config : Config}
    {watchdog : Watchdog}
    {names : Names}
    {engine : Engine}
    {path zero nonZero : Path}
    {budget location : Nat}
    (prunes : config.pruneInfeasible = true)
    (advances :
      ReflTransGen Advances (fresh program config watchdog names) engine)
    (waits : path ∈ engine.pending)
    (forked : (engine.runSlice budget path).outcome =
      .forked location zero nonZero) :
    ¬(engine.isPruned zero = true ∧ engine.isPruned nonZero = true) := by
  obtain ⟨config_eq, wellPruned, -⟩ := wellPruned_advances prunes advances
  have isPath : path ∈ engine.paths := List.mem_append_right _ waits
  exact not_isPruned_both (config_eq ▸ prunes)
    (forall_paths_of_every wellPruned.shaped path isPath)
    (forall_paths_of_every wellPruned.possible path isPath) forked

/-- An exploration with pruning that comes to an end has found the possible ones
of the states that one without pruning has found. -/
theorem restricts_of_finished
    {program : Program}
    {pruning full : Config}
    {pruningWatchdog fullWatchdog : Watchdog}
    {prunedEngine fullEngine : Engine}
    (prunes : pruning.pruneInfeasible = true)
    (keepsAll : full.pruneInfeasible = false)
    (policy_eq : pruning.outputPolicy = full.outputPolicy)
    (capacity_eq : pruning.tapeCapacity = full.tapeCapacity)
    (prunedReached :
      Reached program pruning pruningWatchdog prunedEngine)
    (prunedFinished : prunedEngine.pending = [])
    (fullReached : Reached program full fullWatchdog fullEngine)
    (fullFinished : fullEngine.pending = []) :
    Survey.Restricts fullEngine.survey prunedEngine.survey := by
  have prunedSteps := prunedReached.steps_survey
  have fullSteps := fullReached.steps_survey
  rw [prunes, policy_eq, capacity_eq] at prunedSteps
  rw [keepsAll] at fullSteps
  obtain ⟨matched, matchedSteps, restricts⟩ :=
    Survey.restricts_of_steps fullSteps
  have matchedFinished : matched.pending = 0 := by
    rw [restricts.pending]
    simp [survey, fullFinished]
  have prunedSurveyFinished : prunedEngine.survey.pending = 0 := by
    simp [survey, prunedFinished]
  rwa [Survey.eq_of_finished prunedSteps prunedSurveyFinished matchedSteps
    matchedFinished]

end Engine

/-- Pruning is exact on everything that an exploration can reach.  The check for
impossible paths answers exactly that no input satisfies the constraint.  With
pruning all paths of the engine are possible.  At no later time does a path that
waits lose both sides of its next fork, and if no name was handed out twice, then
of every fork in the journal a side was kept.  If explorations with and without
pruning both come to an end, the former has found the possible ones of the states
that the latter has found. -/
theorem pruning_is_exact
    (program : Program)
    (policy : OutputPolicy)
    (capacity : Nat) :
    (∀ state, State.Reachable program policy capacity state ->
      (state.constraint.feasibility = .infeasible ↔
        ¬state.constraint.Satisfiable)) ∧
    (∀ config watchdog engine,
      config.outputPolicy = policy -> config.tapeCapacity = capacity ->
      config.pruneInfeasible = true ->
      Engine.Reached program config watchdog engine ->
        (∀ path ∈ engine.paths, path.state.constraint.Satisfiable) ∧
        (∀ later path budget location zero nonZero,
          Relation.ReflTransGen Engine.Advances engine later ->
          path ∈ later.pending ->
          (later.runSlice budget path).outcome =
            .forked location zero nonZero ->
            ¬(later.isPruned zero = true ∧ later.isPruned nonZero = true)) ∧
        (engine.names.Distinct -> ∀ zero nonZero, engine.Split zero nonZero ->
          ¬(engine.Dropped zero ∧ engine.Dropped nonZero)) ∧
        engine.statistics.pruned ≤ engine.statistics.forks) ∧
    (∀ pruning pruningWatchdog started pruned full fullWatchdog begun complete,
      pruning.outputPolicy = policy -> pruning.tapeCapacity = capacity ->
      pruning.pruneInfeasible = true ->
      Engine.Reached program pruning pruningWatchdog started ->
      started.execute = (none, pruned) ->
      full.outputPolicy = policy -> full.tapeCapacity = capacity ->
      full.pruneInfeasible = false ->
      Engine.Reached program full fullWatchdog begun ->
      begun.execute = (none, complete) ->
        Multiset.ofList (pruned.completed.toList.map Path.state) =
          (Multiset.ofList (complete.completed.toList.map Path.state)).filter
            State.Possible ∧
        Multiset.ofList (pruned.faulted.toList.map fun entry =>
            (entry.path.state, entry.fault)) =
          (Multiset.ofList (complete.faulted.toList.map fun entry =>
            (entry.path.state, entry.fault))).filter
              fun entry => entry.1.Possible) := by
  refine ⟨?_, ?_, ?_⟩
  · intro state reachable
    exact reachable.wellShaped.infeasible_iff
  · rintro config watchdog engine rfl rfl prunes reached
    obtain ⟨names, advances⟩ := reached.advances
    obtain ⟨-, wellPruned, attributed⟩ :=
      Engine.wellPruned_advances prunes advances
    refine ⟨Engine.forall_paths_of_every wellPruned.possible, ?_, ?_,
      wellPruned.drops_le⟩
    · intro later path budget location zero nonZero further waits forked
      exact Engine.not_isPruned_both_of_advances prunes
        (advances.trans further) waits forked
    · intro distinct zero nonZero split
      exact attributed.kept distinct split
  · rintro pruning pruningWatchdog started pruned full fullWatchdog begun
      complete rfl rfl prunes prunedReached prunedFinished policy_eq
      capacity_eq keepsAll fullReached fullFinished
    have prunedAfter := prunedReached.executed
    have fullAfter := fullReached.executed
    rw [prunedFinished] at prunedAfter
    rw [fullFinished] at fullAfter
    have restricts := Engine.restricts_of_finished prunes keepsAll
      policy_eq.symm capacity_eq.symm prunedAfter
      (Engine.pending_of_execute prunedFinished) fullAfter
      (Engine.pending_of_execute fullFinished)
    exact ⟨restricts.completed, restricts.faulted⟩

/-- Two nested loops that test the same input byte. -/
def nestedLoops : Program :=
  ⟨#[.read, .loopEnter, .loopEnter, .moveRight, .loopExit, .moveRight,
    .loopExit], none⟩

/-- The nested loops before they are explored. -/
def nestedLoopsEngine (prune : Bool) : Engine :=
  Engine.create nestedLoops { tapeCapacity := 3, pruneInfeasible := prune } .idle

/-- Without pruning the nested loops have three completed paths.  The one that
enters the outer loop and skips the inner one is impossible: with pruning one
side of the two forks is dropped, and the other two paths are left. -/
theorem pruning_is_exact_nestedLoops :
    let zero := Predicate.isZero (.symbol (inputName 0))
    let nonZero := Predicate.isNonZero (.symbol (inputName 0))
    let clauses := fun path : Path => path.state.constraint.clauses
    let pruned := (nestedLoopsEngine true).execute
    let complete := (nestedLoopsEngine false).execute
    pruned.1 = none ∧ complete.1 = none ∧
      complete.2.completed.toList.map clauses =
        [[zero], [nonZero, zero], [nonZero, nonZero]] ∧
      pruned.2.completed.toList.map clauses = [[zero], [nonZero, nonZero]] ∧
      complete.2.statistics.pruned = 0 ∧
      pruned.2.statistics.pruned = 1 ∧ pruned.2.statistics.forks = 2 ∧
      pruned.2.names.Distinct ∧
      (∀ zeroName nonZeroName, pruned.2.Split zeroName nonZeroName ->
        ¬(pruned.2.Dropped zeroName ∧ pruned.2.Dropped nonZeroName)) ∧
      Multiset.ofList (pruned.2.completed.toList.map Path.state) =
        (Multiset.ofList (complete.2.completed.toList.map Path.state)).filter
          State.Possible := by
  obtain ⟨checked, kept, found⟩ :=
    pruning_is_exact nestedLoops .rejectSymbolic 3
  let byte : Term := .symbol (inputName 0)
  let entered := Constraint.trivial.and (.isNonZero byte)
  have feasible {constraint : Constraint} (value : UInt8)
      (satisfied : constraint.holds (fun _ => value) = true) :
      constraint.feasibility.isInfeasible = false := by
    cases answer : constraint.feasibility with
    | unknown => rfl
    | infeasible =>
        rw [Constraint.holds_eq_false_of_infeasible answer] at satisfied
        cases satisfied
  have infeasible :
      (entered.and (.isZero byte)).feasibility.isInfeasible = true := by
    obtain ⟨state, reachable, constraint_eq⟩ :
        ∃ state, State.Reachable nestedLoops .rejectSymbolic 3 state ∧
          state.constraint = entered.and (.isZero byte) :=
      ⟨_, .step 1 (.step 2 .initial (.tail _ (.head _))) (.head _), rfl⟩
    have impossible : ¬state.constraint.Satisfiable := by
      rintro ⟨assignment, satisfied⟩
      simp [constraint_eq, entered, byte, Predicate.holds, Predicate.term,
        Predicate.accepts] at satisfied
    rw [← constraint_eq, (checked state reachable).mpr impossible]
    rfl
  have isPruned_eq {engine : Engine} {path : Path} {constraint : Constraint}
      {answer : Bool}
      (answer_eq : constraint.feasibility.isInfeasible = answer)
      (prunes : engine.config.pruneInfeasible = true)
      (constraint_eq : path.state.constraint = constraint) :
      engine.isPruned path = answer := by
    unfold Engine.isPruned
    rw [prunes, constraint_eq, answer_eq]
    rfl
  have skips := @feasible (Constraint.trivial.and (.isZero byte)) 0 rfl
  have enters := @feasible entered 1 rfl
  have entersAgain := @feasible (entered.and (.isNonZero byte)) 1 rfl
  have pruned :
      ((nestedLoopsEngine true).execute.1 = none ∧
        (nestedLoopsEngine true).execute.2.names = .counting 5) ∧
        (nestedLoopsEngine true).execute.2.completed.toList.map
            (fun path => path.state.constraint.clauses) =
          [[.isZero byte], [.isNonZero byte, .isNonZero byte]] ∧
        (nestedLoopsEngine true).execute.2.statistics.pruned = 1 ∧
        (nestedLoopsEngine true).execute.2.statistics.forks = 2 := by
    rw [Engine.execute_eq_complete]
    rw [Engine.complete_of_forked rfl rfl (isPruned_eq skips rfl rfl)
      (isPruned_eq enters rfl rfl) (by decide)]
    rw [Engine.complete_of_next rfl]
    rw [Engine.complete_of_forked rfl rfl (isPruned_eq infeasible rfl rfl)
      (isPruned_eq entersAgain rfl rfl) (by decide)]
    rw [Engine.complete_of_next rfl, Engine.complete_of_finished rfl]
    exact ⟨⟨rfl, rfl⟩, rfl, rfl, rfl⟩
  have complete :
      (nestedLoopsEngine false).execute.1 = none ∧
        (nestedLoopsEngine false).execute.2.completed.toList.map
            (fun path => path.state.constraint.clauses) =
          [[.isZero byte], [.isNonZero byte, .isZero byte],
            [.isNonZero byte, .isNonZero byte]] ∧
        (nestedLoopsEngine false).execute.2.statistics.pruned = 0 := by
    rw [Engine.execute_eq_complete, Engine.complete_of_next rfl,
      Engine.complete_of_next rfl, Engine.complete_of_next rfl,
      Engine.complete_of_next rfl, Engine.complete_of_next rfl,
      Engine.complete_of_finished rfl]
    exact ⟨rfl, rfl, rfl⟩
  obtain ⟨⟨prunedEnds, names_eq⟩, prunedClauses, dropped, forks⟩ := pruned
  obtain ⟨completeEnds, completeClauses, noneDropped⟩ := complete
  have distinct : (nestedLoopsEngine true).execute.2.names.Distinct := by
    rw [names_eq]
    exact Names.distinct_counting (by decide)
  have reached : Engine.Reached nestedLoops
      { tapeCapacity := 3, pruneInfeasible := true } .idle
      (nestedLoopsEngine true).execute.2 :=
    .executed (.created _)
  obtain ⟨-, -, oneKept, -⟩ := kept _ _ _ rfl rfl rfl reached
  refine ⟨prunedEnds, completeEnds, completeClauses, prunedClauses, noneDropped,
    dropped, forks, distinct, oneKept distinct, ?_⟩
  exact (found _ _ (nestedLoopsEngine true) _ _ _ (nestedLoopsEngine false) _
    rfl rfl rfl (.created _) (Prod.ext prunedEnds rfl) rfl rfl rfl (.created _)
    (Prod.ext completeEnds rfl)).1

end SymbolicTape
