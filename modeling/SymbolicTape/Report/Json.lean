import SymbolicTape.JsonValue
import SymbolicTape.Report

/-!
# Reports as JSON

Every kind of report is written as JSON and read back.  Reading is strict about
the kind and the range of every value.  A field that may be null may also be
missing from an object.
-/

namespace SymbolicTape

namespace JsonValue

/-- A field that has to be there. -/
def required?
    (read : JsonValue -> Option α)
    (field : Option JsonValue) : Option α :=
  field.bind read

/-- A field that may be missing or null. -/
def optional?
    (read : JsonValue -> Option α) :
    Option JsonValue -> Option (Option α)
  | none => some none
  | some value => value.nullable? read

end JsonValue

open JsonValue (required? optional? natBelow? count? int64? byte? text? list?)

namespace PathStatus

/-- The name of a status. -/
def name : PathStatus -> String
  | .completed => "completed"
  | .errored => "errored"
  | .unexplored => "unexplored"

/-- The status of a name. -/
def ofName? (name : String) : Option PathStatus :=
  [completed, errored, unexplored].find? fun status => status.name == name

/-- Write a status. -/
def toJson (status : PathStatus) : JsonValue := .text status.name

/-- Read a status from its name, or from an object whose only field has its
name and is null. -/
def ofJson? : JsonValue -> Option PathStatus
  | .text name => ofName? name
  | .object [(name, .null)] => ofName? name
  | _ => none

end PathStatus

namespace Identifier

/-- Write an identifier. -/
def toJson (identifier : Identifier) : JsonValue := .text identifier.render

/-- Read an identifier. -/
def ofJson? (value : JsonValue) : Option Identifier :=
  value.text?.bind parse?

end Identifier

namespace Statistics

/-- The names of the fields. -/
def fieldNames : List String :=
  ["total_steps", "slices", "forks", "pruned", "peak_live_states"]

/-- Write statistics. -/
def toJson (statistics : Statistics) : JsonValue :=
  .object [
    ("total_steps", .ofNat statistics.totalSteps),
    ("slices", .ofNat statistics.slices),
    ("forks", .ofNat statistics.forks),
    ("pruned", .ofNat statistics.pruned),
    ("peak_live_states", .ofNat statistics.peakLiveStates)]

/-- Read statistics. -/
def ofJson? (value : JsonValue) : Option Statistics :=
  match value.record? fieldNames with
  | some [totalSteps, slices, forks, pruned, peakLiveStates] => do
      let totalSteps <- required? count? totalSteps
      let slices <- required? count? slices
      let forks <- required? count? forks
      let pruned <- required? count? pruned
      let peakLiveStates <- required? count? peakLiveStates
      return ⟨totalSteps, slices, forks, pruned, peakLiveStates⟩
  | _ => none

end Statistics

namespace CellReport

/-- Write a cell. -/
def toJson (cell : CellReport) : JsonValue :=
  .object [("index", .ofNat cell.index), ("value", .text cell.value)]

/-- Read a cell. -/
def ofJson? (value : JsonValue) : Option CellReport :=
  match value.record? ["index", "value"] with
  | some [index, text] => do
      let index <- required? count? index
      let text <- required? text? text
      return ⟨index, text⟩
  | _ => none

end CellReport

namespace PathReport

/-- The names of the fields. -/
def fieldNames : List String :=
  ["id", "parent", "status", "constraint", "smtlib", "instruction_pointer",
    "pointer", "output", "output_bytes", "cells", "error"]

/-- Write a path. -/
def toJson (report : PathReport) : JsonValue :=
  .object [
    ("id", report.identifier.toJson),
    ("parent", .ofOption Identifier.toJson report.parent),
    ("status", report.status.toJson),
    ("constraint", .text report.constraint),
    ("smtlib", .text report.smtLib),
    ("instruction_pointer", .ofNat report.instructionPointer),
    ("pointer", .integer report.pointer.toInt),
    ("output", .ofList .text report.output),
    ("output_bytes",
      .ofOption (.ofList fun byte => .ofNat byte.toNat) report.outputBytes),
    ("cells", .ofList CellReport.toJson report.cells),
    ("error", .ofOption .text report.error)]

/-- Read a path. -/
def ofJson? (value : JsonValue) : Option PathReport :=
  match value.record? fieldNames with
  | some [identifier, parent, status, constraint, smtLib, instructionPointer,
      pointer, output, outputBytes, cells, error] => do
      let identifier <- required? Identifier.ofJson? identifier
      let parent <- optional? Identifier.ofJson? parent
      let status <- required? PathStatus.ofJson? status
      let constraint <- required? text? constraint
      let smtLib <- required? text? smtLib
      let instructionPointer <- required? (natBelow? (Nat.pow 2 32))
        instructionPointer
      let pointer <- required? int64? pointer
      let output <- required? (list? text?) output
      let outputBytes <- optional? (list? byte?) outputBytes
      let cells <- required? (list? CellReport.ofJson?) cells
      let error <- optional? text? error
      return ⟨identifier, parent, status, constraint, smtLib,
        instructionPointer, pointer, output, outputBytes, cells, error⟩
  | _ => none

end PathReport

namespace Summary

/-- The names of the fields. -/
def fieldNames : List String :=
  ["completed", "errored", "unexplored", "truncation", "statistics", "paths"]

/-- Write a summary. -/
def toJson (summary : Summary) : JsonValue :=
  .object [
    ("completed", .ofNat summary.completed),
    ("errored", .ofNat summary.errored),
    ("unexplored", .ofNat summary.unexplored),
    ("truncation", .ofOption .text summary.truncation),
    ("statistics", summary.statistics.toJson),
    ("paths", .ofList PathReport.toJson summary.paths)]

/-- Read a summary. -/
def ofJson? (value : JsonValue) : Option Summary :=
  match value.record? fieldNames with
  | some [completed, errored, unexplored, truncation, statistics, paths] => do
      let completed <- required? count? completed
      let errored <- required? count? errored
      let unexplored <- required? count? unexplored
      let truncation <- optional? text? truncation
      let statistics <- required? Statistics.ofJson? statistics
      let paths <- required? (list? PathReport.ofJson?) paths
      return ⟨completed, errored, unexplored, truncation, statistics, paths⟩
  | _ => none

end Summary
end SymbolicTape
