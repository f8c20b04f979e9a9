/-
PageWalk/Aggregation.lean

Aggregation: reducing many logs to one table.  Only the first log of a
benchmark counts.  A log that cannot be reduced leaves a row that says so,
and the others are still reduced; only a fatal cause ends the run.

Reports and copies of the logs are saved on the side.  What goes wrong with
these is told, and changes nothing else.
-/
import PageWalk.Config.Run
import PageWalk.LatencyTable.Basic
import PageWalk.LogFile
import PageWalk.Reduction.Ecpt
import PageWalk.Reduction.Radix
import PageWalk.Reduction.Run
import PageWalk.Report

namespace PageWalk.Aggregation

/-! ### One log -/

/-- How a run reduces its traces.  The state is told after every record if
the period between two tellings is zero. -/
def mode (config : RunConfig) : Reduction.Mode where
  strict := config.strict
  verbose := config.debugOutputPeriod.nanoseconds == 0

/-- Reduce the section that a reader stands at, by the design of the run. -/
def reduceSection (config : RunConfig) (reader : Log.Reader) :
    Except Error Reduction.Output × List Event :=
  let (result, _, events) := match config.design with
    | .radix => Reduction.reduce (mode config) reader (RadixReducer.new config.costs)
    | .ecpt =>
      Reduction.reduce (mode config) reader (EcptReducer.new config.costs config.overheads)
  (result, events)

/-- Reduce a log to a report. -/
def reduceLog (config : RunConfig) (file : LogFile) (log : Bytes) :
    Except Error Report × List Event :=
  match Log.Reader.ofLog config.design.format log with
  | .error e => (.error (e.during .readLog), [])
  | .ok reader =>
    let located := match reader.markerLine with
      | some line => .markerFound (line + 1)
      | none => .noMarker
    match reduceSection config reader with
    | (.error e, events) => (.error (e.during .reduceTrace), located :: events)
    | (.ok output, events) =>
      (.ok { benchmark := file.benchmark, log := file.path, preset := config.preset,
             issues := output.issues, statistics := output.statistics },
        located :: events ++ [.reduced])

variable {m : Type → Type} [Monad m] [Files m]

/-- Reduce a log file to a report. -/
def reduceFile (config : RunConfig) (file : LogFile) : m (Except Error Report × List Event) := do
  return match ← Files.openFile file.path with
    | .error e => (.error { cause := .file e, attempts := [.openLog file.path] }, [])
    | .ok opened =>
      match opened.read with
      | .error e => (.error { cause := .file e, attempts := [.searchMarker, .readLog] }, [])
      | .ok log => reduceLog config file log

/-! ### Saving results -/

/-- Where the report of a benchmark is saved. -/
def reportPath (directory : Path) (benchmark : String) : Path :=
  directory.join (Utf8.encode (benchmark ++ ".json").toList)

/-- Save a report, unless there were no requests, and a copy of its log. -/
def saveResults (directory : Path) (file : LogFile) (report : Report) :
    m (Except Error Unit) := do
  let reported ←
    if report.statistics.summary.totalRequests.val = 0 then pure (.ok ())
    else report.write (reportPath directory report.benchmark)
  match reported, file.path.fileName? with
  | .error e, _ => return .error e
  | .ok (), none => return .ok ()
  | .ok (), some name =>
    let target := directory.join name
    return match ← Files.copy file.path target with
      | .error e => .error { cause := .file e, attempts := [.copyFile file.path target] }
      | .ok () => .ok ()

/-! ### All logs -/

/-- How far a run has come. -/
structure State where
  table : LatencyTable
  issues : IssueTally
  events : List Event

namespace State

/-- Before the first log. -/
def start (design : Design) : State := ⟨.empty design, .empty, []⟩

/-- Tell some events. -/
def tell (s : State) (events : List Event) : State := { s with events := s.events ++ events }

/-- The state with a row for a benchmark. -/
def insert (s : State) (benchmark : String) (row : LatencyTable.Row) : State :=
  { s with table := s.table.insert benchmark row }

end State

/-- The event, if there are issues to tell of. -/
def ifIssues (tally : IssueTally) (event : Event) : Except Cause (List Event) := do
  return if ← tally.isEmpty then [] else [event]

/-- What is told of a report. -/
def reportEvents (report : Report) : Except Cause (List Event) := do
  let summary := report.statistics.summary
  let ignored ← ifIssues report.issues (.ignoredIssues report.issues)
  let requests := if summary.totalRequests.val = 0 then [.noRequests] else []
  let breakdown ← report.statistics.breakdown.toList.mapM fun b => .breakdown <$> b.display
  return ignored ++ requests ++ .summary summary :: breakdown

/-- The state with the row of a report. -/
def State.take (s : State) (report : Report) : Except Cause State := do
  let events ← reportEvents report
  let issues ← s.issues.add report.issues
  return ({ s with issues }.insert report.benchmark (.ofSummary report.statistics.summary)).tell
    events

/-- Reduce the next log, unless its benchmark has a row already. -/
def step (config : RunConfig) (results : Option Path) (file : LogFile) (s : State) :
    m (Except Error Unit × State) := do
  if s.table.rows.contains file.benchmark then
    return (.ok (), s.tell [.duplicateBenchmark])
  else
    let (result, events) ← reduceFile config file
    let s := s.tell (.reducing :: events)
    match result with
    | .error e =>
      if e.cause.isFatal then return (.error (e.during (.reduceFile file.path)), s)
      else return (.ok (), (s.insert file.benchmark (.failed e.message)).tell [.reduceFailed e])
    | .ok report =>
      match s.take report, results with
      | .error c, _ => return (.error { cause := c }, s)
      | .ok s, none => return (.ok (), s)
      | .ok s, some directory =>
        match ← saveResults directory file report with
        | .error e => return (.ok (), s.tell [.saveFailed e])
        | .ok () => return (.ok (), s)

/-- Reduce one log after the other. -/
def steps (config : RunConfig) (results : Option Path) :
    List LogFile → State → m (Except Error Unit × State)
  | [], s => return (.ok (), s)
  | file :: files, s => do
    match ← step config results file s with
    | (.error e, s) => return (.error e, s)
    | (.ok (), s) => steps config results files s

/-- What a run comes to. -/
structure Output where
  table : LatencyTable
  issues : IssueTally

/-- Reduce logs to a table.  Results are saved in a directory, if one is
given. -/
def run (config : RunConfig) (results : Option Path) (files : List LogFile) :
    m (Except Error Output × List Event) := do
  let (result, s) ← steps config results files (.start config.design)
  return match result with
    | .error e => (.error e, s.events)
    | .ok () =>
      match ifIssues s.issues (.ignoredOverall s.issues files.length) with
      | .error c => (.error { cause := c }, s.events)
      | .ok events => (.ok { table := s.table, issues := s.issues }, s.events ++ events)

end PageWalk.Aggregation
