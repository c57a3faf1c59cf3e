import SymbolicTape.Engine

/-!
# Calls of the engine

A call takes turns until one of them ends it.  A turn that does not end the
call executes at least one instruction of those that remain, or it completes a
path that was at the end already and so leaves the worklist shorter.  This
decrease is what makes a call total.
-/

namespace SymbolicTape
namespace Engine

/-- A slice that has a budget and executes nothing completes its path. -/
theorem outcome_runSlice_of_executed_eq_zero
    {engine : Engine}
    {budget : Nat}
    {path : Path}
    (budgetPositive : 0 < budget)
    (idle : (engine.runSlice budget path).executed = 0) :
    (engine.runSlice budget path).outcome = .done path := by
  have ended := State.outcome_step_of_executed_eq_zero budgetPositive idle
  unfold runSlice Path.step
  dsimp only
  rw [ended]
  rfl

namespace Call

/-- A turn that does not end the call leaves fewer instructions, or as many
instructions and fewer paths. -/
theorem decreases_of_turn
    {call next : Call}
    (turned : call.turn = .next next) :
    next.remaining < call.remaining ∨
      next.remaining = call.remaining ∧
        next.engine.worklist.size < call.engine.worklist.size := by
  obtain ⟨engine, turns, remaining⟩ := call
  unfold turn at turned
  dsimp only at turned ⊢
  split at turned
  · cases turned
  · rename_i path rest taken
    split at turned
    · cases turned
    split at turned
    · cases turned
    split at turned
    · cases turned
    rename_i remains
    generalize (poll turns engine).2 = polled at turned
    have budgetPositive : 0 < budget remaining polled := by
      unfold budget
      omega
    unfold runTurn at turned
    dsimp only at turned
    split at turned
    · cases turned
    cases turned
    dsimp only
    by_cases idle :
        (polled.runSlice (budget remaining polled) path).executed = 0
    · right
      have size_eq := Worklist.size_of_take? taken
      have outcome_eq :=
        outcome_runSlice_of_executed_eq_zero budgetPositive idle
      refine ⟨by omega, ?_⟩
      unfold afterSlice
      rw [outcome_eq]
      dsimp only [file, record]
      omega
    · left
      omega

/-- Take turns until the call ends.  The result says why it stopped early, if
it did. -/
def complete (call : Call) : Option Truncation × Engine :=
  match _turned : call.turn with
  | .finished engine => (none, engine)
  | .truncated reason engine => (some reason, engine)
  | .next next => complete next
termination_by (call.remaining, call.engine.worklist.size)
decreasing_by
  rcases decreases_of_turn _turned with fewer | ⟨same, shorter⟩
  · exact Prod.Lex.left _ _ fewer
  · rw [same]
    exact Prod.Lex.right _ shorter

end Call

/-- Explore until nothing is left to be run, or until a limit or the watchdog
stops the call.  A further call goes on from there with a fresh budget of
instructions. -/
def execute (engine : Engine) : Option Truncation × Engine :=
  let started : Engine :=
    { engine.record (.started engine.program.size engine.worklist.size) with
      truncation := none }
  Call.complete
    { engine := started, remaining := engine.config.maximumTotalSteps }

end Engine
end SymbolicTape
