/-
PageWalk/Statistics/Latency.lean

Latencies weighted by how many requests had them.  The number of requests
is the only sum that may grow too large without a fault of the costs, and
what would make it so is refused before anything is registered.
-/
import PageWalk.Statistics.Histogram

namespace PageWalk

/-- The quotient of a sum over requests by their number, both rounded to
doubles first; not a number if there are no requests. -/
def meanOf (total : Total) (requests : Count) : Float :=
  if requests.val = 0 then 0.0 / 0.0
  else Float.ofNat total.val / Float.ofNat requests.val

/-- Request-weighted latencies. -/
structure LatencyStats where
  /-- The sum of latency times frequency. -/
  total : Total
  /-- The sum of the frequencies. -/
  requests : Count
  histogram : Histogram

namespace LatencyStats

/-- The latencies of no requests. -/
def empty : LatencyStats := ⟨0, 0, .empty⟩

instance : Inhabited LatencyStats := ⟨empty⟩

/-- The latencies with `frequency` more requests at `latency`. -/
def register (s : LatencyStats) (latency frequency : Count) : Except Cause LatencyStats :=
  match s.requests.add? frequency with
  | none => .error (.requestOverflow s.requests frequency)
  | some requests => do
    let total ← s.total.plus (Counter.mul latency frequency)
    let histogram ← s.histogram.register latency frequency
    return { total, requests, histogram }

/-- The mean latency of a request. -/
def mean (s : LatencyStats) : Float := meanOf s.total s.requests

end LatencyStats

end PageWalk
