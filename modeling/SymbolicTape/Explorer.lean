import SymbolicTape.Exploration

/-!
# Exploring a program text

An explorer takes a program text through four stages: it has the text, it has
loaded the program, its engine is ready, and it has finished.  Every stage is a
type of its own, so that the stages can only follow each other in this order.
Each carries the journal of what happened so far.
-/

namespace SymbolicTape
namespace Explorer

/-- An explorer that has a program text. -/
structure Draft where
  /-- The program text. -/
  source : String
  /-- How the program is explored. -/
  config : Config
  /-- Who may stop the exploration. -/
  watchdog : Watchdog
  /-- Where the names of the paths come from. -/
  names : Names := .counting 0

/-- An explorer that has loaded a program. -/
structure Loaded where
  /-- The program text. -/
  source : String
  /-- The program. -/
  program : Program
  /-- How the program is explored. -/
  config : Config
  /-- Who may stop the exploration. -/
  watchdog : Watchdog
  /-- Where the names of the paths come from. -/
  names : Names
  /-- What happened so far. -/
  journal : Journal := #[]

/-- An explorer whose engine is ready. -/
structure Ready where
  /-- The program text. -/
  source : String
  /-- The engine before its first call. -/
  engine : Engine

/-- An explorer that has finished. -/
structure Finished where
  /-- The program text. -/
  source : String
  /-- What was found. -/
  result : Exploration
  /-- What happened. -/
  journal : Journal

/-- Load another text in place of the explorer's own, which stays its source.
The text is loaded as the configuration asks. -/
def Draft.loadText
    (draft : Draft)
    (text : String) : Except (ErrorList Error) Loaded :=
  match Program.load text draft.config.matching with
  | .error error => .error (.single (error.map Error.load))
  | .ok program =>
      .ok
        { source := draft.source
          program := program
          config := draft.config
          watchdog := draft.watchdog
          names := draft.names }

/-- Load the program text as the configuration asks. -/
def Draft.load (draft : Draft) : Except (ErrorList Error) Loaded :=
  (draft.loadText draft.source).map fun loaded =>
    { loaded with
      journal := #[.loaded loaded.program.size loaded.program.matching] }

/-- Prepare the engine. -/
def Loaded.prepare (loaded : Loaded) : Ready :=
  let engine := Engine.create loaded.program loaded.config loaded.watchdog
    loaded.names
  { source := loaded.source
    engine := { engine with journal := loaded.journal ++ engine.journal } }

/-- Explore until every path has ended or the exploration is stopped. -/
def Ready.execute (ready : Ready) : Finished :=
  let (stopped, engine) := ready.engine.execute
  let engine := match stopped with
    | none => engine
    | some reason => engine.record (.unfinished reason)
  { source := ready.source
    result := engine.result
    journal := engine.journal }

/-- Go through all stages. -/
def Draft.explore (draft : Draft) : Except (ErrorList Error) Finished :=
  draft.load.map fun loaded => loaded.prepare.execute

end Explorer

/-- Explore a program text on a tape of the given capacity, with all other
settings at their defaults. -/
def explore
    (source : String)
    (tapeCapacity : Nat)
    (names : Names := .counting 0) :
    Except (ErrorList Error) Explorer.Finished :=
  let draft : Explorer.Draft :=
    { source := source
      config := { tapeCapacity := tapeCapacity }
      watchdog := .idle
      names := names }
  draft.explore

end SymbolicTape
