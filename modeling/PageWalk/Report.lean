/-
PageWalk/Report.lean

Reports: what is saved of one trace, in json, with what it was made from.
-/
import PageWalk.Files.Basic
import PageWalk.Json.Reader
import PageWalk.Statistics.Basic
import PageWalk.Statistics.IssueTally

namespace PageWalk

/-- The report of a trace. -/
structure Report where
  benchmark : String
  /-- The log that was reduced. -/
  log : Path
  /-- The name of the preset in force. -/
  preset : String
  issues : IssueTally
  statistics : Statistics

namespace Report

/-- The names of the parts in files. -/
def fieldSpecs : List Json.FieldSpec :=
  [{ name := "benchmark" }, { name := "log_file" }, { name := "preset" }, { name := "issues" },
    { name := "statistics" }]

/-- The report that a json value gives. -/
def ofJson? (j : Json) : Option Report := do
  match ← j.fields? false fieldSpecs with
  | [benchmark, log, preset, issues, statistics] =>
    return ⟨← Json.field? Json.text? benchmark, .ofString (← Json.field? Json.text? log),
      ← Json.field? Json.text? preset, ← Json.field? IssueTally.ofJson? issues,
      ← Json.field? Statistics.ofJson? statistics⟩
  | _ => none

/-- The json value of a report on the log at the path `log`. -/
def toJson (r : Report) (log : String) : Json :=
  .ofMembers [("benchmark", .ofText r.benchmark), ("log_file", .ofText log),
    ("preset", .ofText r.preset), ("issues", r.issues.toJson),
    ("statistics", r.statistics.toJson)]

/-- The text of a report up to where the path of its log stands. -/
def opening (r : Report) : Bytes :=
  0x7B :: Json.prettyMembers 1 [(Json.spell "benchmark", .ofText r.benchmark)] ++
    0x2C :: Json.newLine 1 ++ Json.quoted (Json.spell "log_file") ++ [0x3A, 0x20]

/-- The text of a report, and whether it is whole: a path that spells no
text cannot be told, and ends it. -/
def contents (r : Report) : Bytes × Except Cause Unit :=
  match r.log.text? with
  | some log => ((r.toJson log).pretty, .ok ())
  | none => (r.opening, .error .pathNotText)

/-! ### Files -/

variable {m : Type → Type} [Monad m] [Files m]

/-- Read a report. -/
def read (path : Path) : m (Except Error Report) := do
  match ← Files.openFile path with
  | .error e => return .error { cause := .file e, attempts := [.openReport path] }
  | .ok opened =>
    return match opened.read with
      | .error e => .error { cause := .file e, attempts := [.parseReport path] }
      | .ok text => match (Json.parse? text).bind ofJson? with
        | some r => .ok r
        | none => .error { cause := .json, attempts := [.parseReport path] }

/-- Write a report. -/
def write (r : Report) (path : Path) : m (Except Error Unit) := do
  let (text, whole) := r.contents
  match ← Files.write path text with
  | .error e => return .error { cause := .file e, attempts := [.createReport path] }
  | .ok () =>
    return match whole with
      | .ok () => .ok ()
      | .error c => .error { cause := c, attempts := [.writeReport path] }

end Report

end PageWalk
