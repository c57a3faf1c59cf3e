import SymbolicTape.Proofs.StateLimits

/-!
# Moments of an exploration

The moments of a call are the engines right after each of its slices was filed.
There is one for every slice that the call counts.  Between two moments the
engine only asks the watchdog and writes its journal, so a property that neither
this nor the filing of a slice destroys holds at all moments of all calls, and
not only where the calls end.
-/

namespace SymbolicTape
namespace Engine

theorem SameWork.pending_eq
    {first second : Engine}
    (same : first.SameWork second) :
    first.pending = second.pending :=
  same.worklist.toList

namespace Call

/-- The engines right after each slice of a call was filed, oldest first.  A
call that stops because too many paths wait does so right after a slice.  Every
other early stop takes the place of a slice. -/
def moments (call : Call) : List Engine :=
  match _turned : call.turn with
  | .finished _ => []
  | .truncated (.liveStateLimit _) engine => [engine]
  | .truncated _ _ => []
  | .next next => next.engine :: moments next
termination_by (call.remaining, call.engine.worklist.size)
decreasing_by
  rcases decreases_of_turn _turned with fewer | ⟨same, shorter⟩
  · exact Prod.Lex.left _ _ fewer
  · rw [same]
    exact Prod.Lex.right _ shorter

theorem moments_of_finished
    {call : Call}
    {engine : Engine}
    (turned : call.turn = .finished engine) :
    call.moments = [] := by
  rw [moments]
  split
  · rfl
  · rename_i other
    cases other.symm.trans turned
  · rfl
  · rename_i other
    cases other.symm.trans turned

theorem moments_of_overflow
    {call : Call}
    {limit : Nat}
    {engine : Engine}
    (turned : call.turn = .truncated (.liveStateLimit limit) engine) :
    call.moments = [engine] := by
  rw [moments]
  split
  · rename_i other
    cases other.symm.trans turned
  · rename_i other
    cases other.symm.trans turned
    rfl
  · rename_i noOverflow other
    cases other.symm.trans turned
    exact absurd rfl (noOverflow limit)
  · rename_i other
    cases other.symm.trans turned

theorem moments_of_stop
    {call : Call}
    {reason : Truncation}
    {engine : Engine}
    (turned : call.turn = .truncated reason engine)
    (noOverflow : ∀ limit, reason ≠ .liveStateLimit limit) :
    call.moments = [] := by
  rw [moments]
  split
  · rfl
  · rename_i limit _ other
    cases other.symm.trans turned
    exact absurd rfl (noOverflow limit)
  · rfl
  · rename_i other
    cases other.symm.trans turned

theorem moments_of_next
    {call next : Call}
    (turned : call.turn = .next next) :
    call.moments = next.engine :: next.moments := by
  rw [moments]
  split
  · rename_i other
    cases other.symm.trans turned
  · rename_i other
    cases other.symm.trans turned
  · rename_i other
    cases other.symm.trans turned
  · rename_i other
    cases other.symm.trans turned
    rfl

/-- The induction along the turns of a call, with the moments that they add. -/
@[elab_as_elim]
theorem moments_induction
    {motive : Call -> List Engine -> Option Truncation × Engine -> Prop}
    (call : Call)
    (finished : ∀ {call : Call},
      call.engine.worklist.take? = none ->
        motive call [] (none, call.engine.record
          (.finished call.engine.completed.size call.engine.faulted.size
            call.engine.statistics.totalSteps)))
    (stopped : ∀ {call : Call} {path rest reason},
      call.engine.worklist.take? = some (path, rest) ->
        call.stop? = some reason ->
          motive call [] (some reason, call.afterStop path rest reason))
    (overflowed : ∀ {call : Call} {path rest reason},
      call.engine.worklist.take? = some (path, rest) ->
        call.stop? = none ->
          (call.afterRun path rest).overflow? (call.slice path).outcome =
              some reason ->
            motive call [(call.afterRun path rest).truncate reason]
              (some reason, (call.afterRun path rest).truncate reason))
    (next : ∀ {call : Call} {path rest},
      call.engine.worklist.take? = some (path, rest) ->
        call.stop? = none ->
          (call.afterRun path rest).overflow? (call.slice path).outcome =
              none ->
            motive (call.afterTurn path rest)
                (call.afterTurn path rest).moments
                (call.afterTurn path rest).complete ->
              motive call
                (call.afterRun path rest :: (call.afterTurn path rest).moments)
                (call.afterTurn path rest).complete) :
    motive call call.moments call.complete := by
  refine complete_induction (motive := fun call result =>
    motive call call.moments result) call ?_ ?_ ?_ ?_
  · intro call nothing
    rw [moments_of_finished (turn_of_take?_eq_none nothing)]
    exact finished nothing
  · intro call path rest reason taken stops
    rw [moments_of_stop (turn_of_stop? taken stops)]
    · exact stopped taken stops
    · rintro limit rfl
      exact call.stop?_ne_liveStateLimit limit stops
  · intro call path rest reason taken goesOn overflows
    obtain ⟨rfl, -, -⟩ := overflow?_eq_some overflows
    rw [moments_of_overflow (turn_of_overflow? taken goesOn overflows)]
    exact overflowed taken goesOn overflows
  · intro call path rest taken goesOn fits later
    rw [moments_of_next (turn_of_next taken goesOn fits)]
    exact next taken goesOn fits later

/-- Every slice that a call counts is one of its moments. -/
theorem slices_complete (call : Call) :
    call.complete.2.statistics.slices =
      call.engine.statistics.slices + call.moments.length := by
  refine moments_induction call ?_ ?_ ?_ ?_
  · intro call nothing
    rfl
  · intro call path rest reason taken stops
    exact congrArg Statistics.slices
      (sameWork_afterStop taken reason).statistics
  · intro call path rest reason taken goesOn overflows
    exact call.slices_afterRun path rest
  · intro call path rest taken goesOn fits later
    have slices_eq : (call.afterTurn path rest).engine.statistics.slices =
        call.engine.statistics.slices + 1 := call.slices_afterRun path rest
    rw [later, slices_eq, List.length_cons]
    omega

section Invariant

variable {property : Engine -> Prop}

/-- What the engine keeps while it rests and in every turn that runs a path
holds at all moments of a call and at its end. -/
theorem invariant_moments
    (rests : ∀ {before after : Engine},
      property before -> after.SameWork before -> property after)
    (runs : ∀ {call : Call} {path rest},
      property call.engine ->
        call.engine.worklist.take? = some (path, rest) ->
          call.stop? = none -> property (call.afterRun path rest))
    (call : Call)
    (holds : property call.engine) :
    (∀ moment ∈ call.moments, property moment) ∧
      property call.complete.2 := by
  revert holds
  refine moments_induction call ?_ ?_ ?_ ?_
  · intro call nothing holds
    exact ⟨List.forall_mem_nil _, rests holds (sameWork_record _ _)⟩
  · intro call path rest reason taken stops holds
    exact ⟨List.forall_mem_nil _, rests holds (sameWork_afterStop taken reason)⟩
  · intro call path rest reason taken goesOn overflows holds
    have stillHolds := rests (runs holds taken goesOn)
      (sameWork_truncate reason _)
    exact ⟨List.forall_mem_singleton.mpr stillHolds, stillHolds⟩
  · intro call path rest taken goesOn fits later holds
    have stillHolds := runs holds taken goesOn
    obtain ⟨laterHolds, endHolds⟩ := later stillHolds
    exact ⟨List.forall_mem_cons.mpr ⟨stillHolds, laterHolds⟩, endHolds⟩

end Invariant
end Call

/-! ## Moments of many calls -/

/-- The engines right after each slice of a number of calls was filed, oldest
first. -/
def moments : Nat -> Engine -> List Engine
  | 0, _ => []
  | calls + 1, engine =>
      engine.moments calls ++ (engine.afterCalls calls).firstTurn.moments

/-- Every slice that is counted is a moment. -/
theorem slices_afterCalls (calls : Nat) (engine : Engine) :
    (engine.afterCalls calls).statistics.slices =
      engine.statistics.slices + (engine.moments calls).length := by
  induction calls with
  | zero => rfl
  | succ calls inductionHypothesis =>
      have slices_eq := (engine.afterCalls calls).firstTurn.slices_complete
      have started : (engine.afterCalls calls).firstTurn.engine.statistics =
          (engine.afterCalls calls).statistics := rfl
      rw [afterCalls, execute_eq_complete, slices_eq, started,
        inductionHypothesis, moments, List.length_append, Nat.add_assoc]

section Invariant

variable {property : Engine -> Prop}

/-- What the engine keeps while it rests and in every turn that runs a path
holds at all moments of any number of calls and after the last of them. -/
theorem invariant_moments
    (rests : ∀ {before after : Engine},
      property before -> after.SameWork before -> property after)
    (runs : ∀ {call : Call} {path rest},
      property call.engine ->
        call.engine.worklist.take? = some (path, rest) ->
          call.stop? = none -> property (call.afterRun path rest))
    {engine : Engine}
    (holds : property engine)
    (calls : Nat) :
    (∀ moment ∈ engine.moments calls, property moment) ∧
      property (engine.afterCalls calls) := by
  induction calls with
  | zero => exact ⟨List.forall_mem_nil _, holds⟩
  | succ calls inductionHypothesis =>
      obtain ⟨earlierHold, startHolds⟩ := inductionHypothesis
      obtain ⟨laterHold, endHolds⟩ := Call.invariant_moments rests runs
        (engine.afterCalls calls).firstTurn
        (rests startHolds (sameWork_firstTurn _))
      exact ⟨List.forall_mem_append.mpr ⟨earlierHold, laterHold⟩, endHolds⟩

end Invariant

/-- A new engine has the work of one that has written nothing in its journal. -/
theorem sameWork_create_fresh
    (program : Program)
    (config : Config)
    (watchdog : Watchdog)
    (names : Names) :
    (create program config watchdog names).SameWork
      (fresh program config watchdog names) := by
  unfold create
  dsimp only
  split <;> exact ⟨rfl, rfl, .refl _, rfl, rfl, rfl, rfl⟩

end Engine
end SymbolicTape
