/-
PageWalk/LatencyTable/Basic.lean

Latency tables: for each benchmark of a design, what its trace came to, or
why it came to nothing.
-/
import PageWalk.Event
import PageWalk.SortedMap

namespace PageWalk

namespace LatencyTable

/-- What the trace of a benchmark came to.  A trace without requests has a
summary, but no latency, and says so. -/
structure Row where
  summary : Option Summary
  error : Option String
deriving DecidableEq

namespace Row

/-- The row of a trace that was reduced. -/
def ofSummary (s : Summary) : Row where
  summary := some s
  error := if s.totalRequests.val = 0 then some "No requests in trace" else none

/-- The row of a trace that could not be reduced. -/
def failed (error : String) : Row := { summary := none, error := some error }

/-- The mean latency of a page walk, unless something is amiss. -/
def latency? (metric : Metric) : Row → Option Float
  | { summary := some s, error := none } => some (s.pageWalkLatency metric)
  | _ => none

end Row

end LatencyTable

/-- The rows of a design, by benchmark. -/
structure LatencyTable where
  design : Design
  rows : SortedMap String LatencyTable.Row

namespace LatencyTable

/-- The table without rows. -/
def empty (design : Design) : LatencyTable := ⟨design, .empty⟩

/-- The table with a row for a benchmark, in place of what stood there. -/
def insert (t : LatencyTable) (benchmark : String) (row : Row) : LatencyTable :=
  { t with rows := t.rows.insert benchmark row }

/-- The latencies of the rows that have one. -/
def latencies (t : LatencyTable) (metric : Metric) : SortedMap String Float :=
  t.rows.filterMap fun _ row => row.latency? metric

/-- What is told of the rows that have none. -/
def skipped (t : LatencyTable) (metric : Metric) : List Event :=
  t.rows.values.filterMap fun row =>
    if (row.latency? metric).isNone then some .noLatency else none

end LatencyTable

end PageWalk
