/-!
# Watchdogs

A watchdog is asked from time to time whether an exploration has to stop.  What
it answers may depend on how often it was asked before, and on nothing else;
a flag that is raised or a clock that runs in the meantime is a watchdog with
the answers that this gives.
-/

namespace SymbolicTape

/-- Someone who can stop an exploration. -/
structure Watchdog where
  /-- The number of slices from one question to the next. -/
  pollEvery : Nat
  /-- The answer to each question, counted from zero. -/
  shouldStop : Nat -> Bool

namespace Watchdog

/-- The number of slices between questions, unless another one is chosen. -/
def defaultPollEvery : Nat := 100

/-- The watchdog that never stops an exploration and is hardly ever asked. -/
def idle : Watchdog :=
  { pollEvery := 1000000000000, shouldStop := fun _ => false }

/-- The watchdog that stops an exploration while a flag is raised. -/
def flag (raised : Bool) (pollEvery : Nat := defaultPollEvery) : Watchdog :=
  { pollEvery := pollEvery, shouldStop := fun _ => raised }

/-- The watchdog that stops an exploration once a budget of time has passed.
The clock says how much time has passed at each question. -/
def deadline
    (budget : Nat)
    (clock : Nat -> Nat)
    (pollEvery : Nat := defaultPollEvery) : Watchdog :=
  { pollEvery := pollEvery, shouldStop := fun question => budget ≤ clock question }

/-- The watchdog that lets a number of questions pass before it stops. -/
def patient (allowed pollEvery : Nat) : Watchdog :=
  { pollEvery := pollEvery, shouldStop := fun question => allowed ≤ question }

end Watchdog
end SymbolicTape
