import SymbolicTape.Proofs.Accounting

/-!
# How many slices a call runs

Neither the instructions that remain nor the paths that wait go down in every
turn.  A path that is at the end of the program completes without executing an
instruction, and a fork lets one more path wait.  But a slice that executes
nothing leaves one path less, and any other slice uses up an instruction and
leaves at most one path more.  So two for every remaining instruction and one
for every waiting path are enough to pay for all slices of a call.

This needs that no slice is empty by its budget: slices of zero instructions are
taken as slices of one.
-/

namespace SymbolicTape
namespace Engine

namespace Call

/-- A call that ends in a number of turns. -/
inductive EndsIn : Nat -> Call -> Option Truncation × Engine -> Prop
  | finished
      {call : Call}
      {engine : Engine}
      (turned : call.turn = .finished engine) :
      EndsIn 1 call (none, engine)
  | truncated
      {call : Call}
      {reason : Truncation}
      {engine : Engine}
      (turned : call.turn = .truncated reason engine) :
      EndsIn 1 call (some reason, engine)
  | next
      {turns : Nat}
      {call next : Call}
      {result : Option Truncation × Engine}
      (turned : call.turn = .next next)
      (ends : EndsIn turns next result) :
      EndsIn (turns + 1) call result

/-- What a call can pay slices with: two for every instruction that remains and
one for every path that waits. -/
def potential (call : Call) : Nat :=
  call.engine.pending.length + 2 * call.remaining

section Potential

variable {call : Call} {path : Path} {rest : Worklist Path}

/-- A slice that executes nothing leaves no path to go on. -/
theorem kept_slice_of_executed_eq_zero
    (remained : call.remaining ≠ 0)
    (idle : (call.slice path).executed = 0) :
    call.asked.kept (call.slice path).outcome = [] := by
  have budgetPositive : 0 < budget call.remaining call.asked := by
    unfold budget
    omega
  have done : (call.slice path).outcome = .done path :=
    outcome_runSlice_of_executed_eq_zero budgetPositive idle
  rw [done]
  rfl

/-- Every slice is paid for. -/
theorem potential_afterTurn_lt
    (taken : call.engine.worklist.take? = some (path, rest))
    (goesOn : call.stop? = none) :
    (call.afterTurn path rest).potential < call.potential := by
  have remained : call.remaining ≠ 0 :=
    (limit?_eq_none_iff.mp (limit?_of_stop?_eq_none goesOn)).2
  have pending_eq := length_pending_afterRun taken
  unfold potential afterTurn
  dsimp only
  by_cases idle : (call.slice path).executed = 0
  · rw [kept_slice_of_executed_eq_zero remained idle,
      List.length_nil] at pending_eq
    omega
  · have executed_le := call.executed_slice_le path
    have kept_le := call.asked.length_kept_le (call.slice path).outcome
    have forkCount_le := (call.slice path).outcome.forkCount_le_one
    omega

end Potential

/-- A call runs no more slices than it can pay for. -/
theorem length_moments_le (call : Call) :
    call.moments.length ≤ call.potential := by
  refine moments_induction (motive := fun call moments _ =>
    moments.length ≤ call.potential) call ?_ ?_ ?_ ?_
  · intro call nothing
    exact Nat.zero_le _
  · intro call path rest reason taken stops
    exact Nat.zero_le _
  · intro call path rest reason taken goesOn overflows
    exact Nat.one_le_of_lt (potential_afterTurn_lt taken goesOn)
  · intro call path rest taken goesOn fits later
    exact Nat.lt_of_le_of_lt later (potential_afterTurn_lt taken goesOn)

/-- A call ends after at most one turn more than it can pay for. -/
theorem exists_endsIn (call : Call) :
    ∃ turns ≤ call.potential + 1, call.EndsIn turns call.complete := by
  refine complete_induction (motive := fun call result =>
    ∃ turns ≤ call.potential + 1, call.EndsIn turns result) call ?_ ?_ ?_ ?_
  · intro call nothing
    exact ⟨1, Nat.le_add_left _ _, .finished (turn_of_take?_eq_none nothing)⟩
  · intro call path rest reason taken stops
    exact ⟨1, Nat.le_add_left _ _, .truncated (turn_of_stop? taken stops)⟩
  · intro call path rest reason taken goesOn overflows
    exact ⟨1, Nat.le_add_left _ _,
      .truncated (turn_of_overflow? taken goesOn overflows)⟩
  · intro call path rest taken goesOn fits later
    obtain ⟨turns, turns_le, ends⟩ := later
    have paid := potential_afterTurn_lt taken goesOn
    refine ⟨turns + 1, ?_, .next (turn_of_next taken goesOn fits) ends⟩
    omega

end Call

/-- Every call returns, whatever the program, the configuration, the watchdog
and the calls before.  It takes finitely many turns, of which the last one ends
it, and it runs at most two slices for every instruction that it may execute and
one for every path that waits at its beginning. -/
theorem every_call_returns (engine : Engine) :
    let bound := engine.pending.length + 2 * engine.config.maximumTotalSteps
    (∃ turns ≤ bound + 1, engine.firstTurn.EndsIn turns engine.execute) ∧
      engine.execute.2.statistics.slices ≤
        engine.statistics.slices + bound := by
  constructor
  · exact engine.firstTurn.exists_endsIn
  · have slices_eq := engine.firstTurn.slices_complete
    have paid := engine.firstTurn.length_moments_le
    rw [execute_eq_complete, slices_eq]
    exact Nat.add_le_add_left paid _

end Engine
end SymbolicTape
