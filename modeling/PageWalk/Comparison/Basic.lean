/-
PageWalk/Comparison/Basic.lean

Comparing two designs by their instructions per cycle: a speedup for each
benchmark, and their mean.
-/
import PageWalk.AccessTable
import PageWalk.Comparison.Join
import PageWalk.Comparison.Spread
import PageWalk.LatencyTable.Basic

namespace PageWalk

/-- The instructions per cycle of benchmarks. -/
abbrev IpcTable := SortedMap String Float

/-- The instructions per cycle that rates and latencies give.  Benchmarks
without a latency are not in the join. -/
def IpcTable.of (access : AccessTable) (latencies : LatencyTable) (metric : Metric) :
    Except Cause IpcTable := do
  return (← join access (latencies.latencies metric)).map fun _ (rates, latency) =>
    rates.ipc latency

namespace Comparison

/-- The comparison of a benchmark. -/
structure Row where
  baseline : Float
  candidate : Float
  speedup : Float
deriving DecidableEq

/-- The row of two rates. -/
def Row.of (baseline candidate : Float) : Row := ⟨baseline, candidate, candidate / baseline⟩

end Comparison

/-- The comparison of two designs. -/
structure Comparison where
  rows : SortedMap String Comparison.Row
  meanSpeedup : Float
  /-- The standard error of the mean. -/
  meanSpeedupError : Float

/-- Compare a candidate with a baseline.  There must be a benchmark to
compare. -/
def Comparison.of (baseline candidate : IpcTable) : Except Cause Comparison := do
  let rows := (← join baseline candidate).map fun _ (b, c) => Row.of b c
  if rows.isEmpty then .error .noBenchmarks
  else
    let spread := Spread.ofList (rows.values.map (·.speedup))
    return ⟨rows, spread.mean, spread.error⟩

end PageWalk
