/-
PageWalk/Reduction/Radix.lean

Radix walks.  A radix walk makes its probes one after the other, so it
costs the sum of their costs.
-/
import PageWalk.Reduction.Reducer
import PageWalk.Statistics.Latency

namespace PageWalk

/-- The cost of a radix walk. -/
def walkCost (costs : Costs) (probes : List (Option Level)) : Except Cause Count :=
  Counter.sum (probes.map costs.probeCost)

/-- The radix walks so far. -/
structure RadixReducer where
  costs : Costs
  latency : LatencyStats
  breakdown : Breakdown

namespace RadixReducer

/-- The state before any record. -/
def new (costs : Costs) : RadixReducer := ⟨costs, .empty, .empty⟩

/-- Break down the probes from `position` on. -/
def registerProbes (frequency : Count) (position : Nat) :
    List (Option Level) → RadixReducer → Except Cause Unit × RadixReducer
  | [], r => (.ok (), r)
  | none :: probes, r => registerProbes frequency (position + 1) probes r
  | some level :: probes, r =>
    match r.breakdown.register position level frequency with
    | .error e => (.error e, r)
    | .ok breakdown => registerProbes frequency (position + 1) probes { r with breakdown }

/-- Take a record: its cost as a latency, then its probes. -/
def handle (record : Record) (r : RadixReducer) : Except Cause Unit × RadixReducer :=
  if maxProbes < record.probes.length then
    (.error (.probeOverflow record.probes.length maxProbes), r)
  else match walkCost r.costs record.probes with
    | .error e => (.error e, r)
    | .ok cost =>
      match r.latency.register cost record.frequency with
      | .error e => (.error e, r)
      | .ok latency => registerProbes record.frequency 0 record.probes { r with latency }

/-- The summary so far. -/
def summary (r : RadixReducer) : RadixSummary := ⟨r.latency.mean, r.latency.requests⟩

/-- The state in one line. -/
def describe (r : RadixReducer) : String :=
  toString r.latency.requests ++ " requests, avg latency " ++ Decimal.fixed 4 r.latency.mean

/-- What the records come to. -/
def statistics (r : RadixReducer) : Statistics where
  summary := .radix r.summary
  histograms := .ofList [("latency", r.latency.histogram)]
  breakdown := some r.breakdown

instance : Reducer RadixReducer := ⟨handle, describe, statistics⟩

end RadixReducer

end PageWalk
