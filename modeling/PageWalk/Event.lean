/-
PageWalk/Event.lean

What a run tells while it works, and how urgently.
-/
import PageWalk.Error
import PageWalk.Statistics.IssueTally
import PageWalk.Summary

namespace PageWalk

/-- How urgent an event is. -/
inductive Severity where
  | warning
  | info
  | debug
deriving DecidableEq

/-- The name of an urgency. -/
def Severity.name : Severity → String
  | warning => "WARN"
  | info => "INFO"
  | debug => "DEBUG"

/-- Something worth telling. -/
inductive Event where
  /-- The program was called with these arguments. -/
  | started (arguments : List String)
  | noLogs
  | reducingLogs (logs : Nat)
  | wroteTable
  | wroteComparison
  | ignoredIssue (issue : Issue)
  /-- How much of a log is read, and what the reducer has so far. -/
  | progress (fraction : Float) (state : String)
  /-- The statistics start after this line, counted from one. -/
  | markerFound (line : Nat)
  | noMarker
  | reducing
  | reduced
  | duplicateBenchmark
  | ignoredIssues (tally : IssueTally)
  | noRequests
  | summary (summary : Summary)
  | breakdown (text : String)
  | saveFailed (error : Error)
  | reduceFailed (error : Error)
  | ignoredOverall (tally : IssueTally) (traces : Nat)
  | nameNotText
  | noLatency
deriving DecidableEq

namespace Event

/-- The urgency of an event. -/
def severity : Event → Severity
  | started _ => .debug
  | noLogs => .warning
  | reducingLogs _ => .info
  | wroteTable => .info
  | wroteComparison => .info
  | ignoredIssue _ => .debug
  | progress .. => .info
  | markerFound _ => .debug
  | noMarker => .warning
  | reducing => .info
  | reduced => .debug
  | duplicateBenchmark => .warning
  | ignoredIssues _ => .warning
  | noRequests => .warning
  | summary _ => .info
  | breakdown _ => .debug
  | saveFailed _ => .warning
  | reduceFailed _ => .warning
  | ignoredOverall .. => .warning
  | nameNotText => .debug
  | noLatency => .warning

/-- The wording of an event. -/
def message : Event → String
  | started arguments => "Arguments: " ++ Text.commaList (arguments.map Text.quote)
  | noLogs => "No log files found"
  | reducingLogs logs => "Reducing " ++ toString logs ++ " log files"
  | wroteTable => "Wrote latency table"
  | wroteComparison => "Wrote comparison"
  | ignoredIssue _ => "Ignoring invalid record field"
  | progress fraction state =>
    "[" ++ Decimal.fixed 2 (100.0 * fraction) ++ "%] Debug: " ++ state
  | markerFound line => "Statistics start after line " ++ toString line
  | noMarker => "No marker line found, reading from the first line"
  | reducing => "Reducing trace"
  | reduced => "Reduced trace"
  | duplicateBenchmark => "Skipping duplicate benchmark"
  | ignoredIssues tally => "Ignored " ++ tally.display
  | noRequests => "Trace has no requests, latencies are undefined"
  | summary s => s.display
  | breakdown text => "Level breakdown:\n" ++ text
  | saveFailed error => "Unable to save results: " ++ error.report
  | reduceFailed error => "Unable to reduce trace: " ++ error.report
  | ignoredOverall tally traces =>
    "Ignored " ++ tally.display ++ " over " ++ toString traces ++ " traces"
  | nameNotText => "Skipping non-utf8 file name"
  | noLatency => "Skipping benchmark without a page walk latency"

/-- An event as a line of a journal. -/
def line (e : Event) : String := e.severity.name ++ " " ++ e.message ++ "\n"

end Event

end PageWalk
