import SymbolicTape.Identifier
import SymbolicTape.State

/-!
# Paths

A path is a state with an identity.  It keeps its identity while it runs.  When
its state splits, both sides get an identity of their own and remember the
path they come from.
-/

namespace SymbolicTape

/-- A state with an identity. -/
structure Path where
  /-- The identity of the path. -/
  identifier : Identifier
  /-- The path that this one was forked from. -/
  parent : Option Identifier := none
  /-- Where the path has got to. -/
  state : State

namespace Path

/-- The path that starts with the program, with the next name. -/
def initial (names : Names) (capacity : Nat) : Path :=
  { identifier := names.next, state := State.initial capacity }

/-- One side of a fork. -/
def child (path : Path) (identifier : Identifier) (state : State) : Path :=
  { identifier := identifier, parent := some path.identifier, state := state }

/-- The paths on which a run of the state of a path ends.  The two sides of a
fork get the next two names. -/
def follow (path : Path) (names : Names) : Outcome State -> Outcome Path
  | .advanced state => .advanced { path with state := state }
  | .done state => .done { path with state := state }
  | .forked location zero nonZero =>
      .forked location
        (path.child names.next zero)
        (path.child (names.skip 1).next nonZero)
  | .faulted state fault => .faulted { path with state := state } fault

/-- Run a path within a budget of instructions. -/
def step
    (program : Program)
    (policy : OutputPolicy)
    (names : Names)
    (budget : Nat)
    (path : Path) : Slice Path :=
  let slice := path.state.step program policy budget
  ⟨slice.executed, path.follow names slice.outcome⟩

/-- Whether the newest clauses of two paths were added by one fork.  A fork is
all that adds a clause, and it names both sides anew, so this is so if the
paths are the same one or if both have never forked.  Paths are told apart by
their names. -/
def sharesClausesWith (path other : Path) : Bool :=
  (path.state.constraint.isEmpty && other.state.constraint.isEmpty)
    || path.identifier == other.identifier

end Path

/-- A path that faulted. -/
structure FaultedPath where
  /-- The path, in front of the instruction that faulted. -/
  path : Path
  /-- The fault and its location. -/
  fault : Located Fault

end SymbolicTape
