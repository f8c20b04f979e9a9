/-
PageWalk/Reduction/Ecpt.lean

Cuckoo walks.  The probes of a cuckoo walk are alternatives, of which one,
the correct way, holds the translation.  Knowing it, a walk is priced
under three models:

* `max` — wait for the slowest probe;
* `correct` — go straight to the correct way;
* `parallel` — the same, with both walk caches looked up at once.
-/
import PageWalk.Reduction.Reducer
import PageWalk.Statistics.Latency

namespace PageWalk

/-! ### One walk -/

/-- The latencies of one walk under the three models, and the probe costs
they start from. -/
structure WayLatencies where
  /-- The cost of the slowest probe. -/
  maxRaw : Count
  /-- The cost of the correct probe. -/
  correctRaw : Count
  max : Count
  correct : Count
  parallel : Count
deriving DecidableEq

namespace WayLatencies

/-- The latencies of a walk whose probes have the given costs; `none` if
`way` is none of them. -/
def of? (probeCosts : List Count) (way : Nat) (overheads : Overheads) :
    Except Cause (Option WayLatencies) :=
  match probeCosts[way]? with
  | none => .ok none
  | some correctRaw => do
    let maxRaw := probeCosts.foldl Counter.max 0
    let max ← maxRaw.plus (← overheads.serial)
    let correct ← correctRaw.plus (← overheads.serial)
    let parallel ← correctRaw.plus (← overheads.parallel)
    return some { maxRaw, correctRaw, max, correct, parallel }

/-- The cycles saved by going to the correct probe instead of the slowest. -/
def saved (l : WayLatencies) : Count := l.maxRaw.sub l.correctRaw

end WayLatencies

/-! ### All walks -/

/-- The cuckoo walks so far. -/
structure EcptReducer where
  costs : Costs
  overheads : Overheads
  max : LatencyStats
  correct : LatencyStats
  parallel : LatencyStats
  savedLatency : Total

namespace EcptReducer

/-- The state before any record. -/
def new (costs : Costs) (overheads : Overheads) : EcptReducer :=
  ⟨costs, overheads, .empty, .empty, .empty, 0⟩

/-- Count the latencies of one walk, under one model after the other. -/
def register (l : WayLatencies) (frequency : Count) (r : EcptReducer) :
    Except Cause Unit × EcptReducer :=
  match r.max.register l.max frequency with
  | .error e => (.error e, r)
  | .ok max =>
    let r := { r with max }
    match r.correct.register l.correct frequency with
    | .error e => (.error e, r)
    | .ok correct =>
      let r := { r with correct }
      match r.parallel.register l.parallel frequency with
      | .error e => (.error e, r)
      | .ok parallel =>
        let r := { r with parallel }
        if l.correctRaw.val < l.maxRaw.val then
          match r.savedLatency.plus (Counter.mul l.saved frequency) with
          | .error e => (.error e, r)
          | .ok savedLatency => (.ok (), { r with savedLatency })
        else (.ok (), r)

/-- Take a record. -/
def handle (record : Record) (r : EcptReducer) : Except Cause Unit × EcptReducer :=
  match record.way with
  | none => (.error .missingWay, r)
  | some way =>
    let probeCosts := record.probes.map r.costs.probeCost
    match WayLatencies.of? probeCosts way r.overheads with
    | .error e => (.error e, r)
    | .ok none => (.error (.wayOutOfRange way probeCosts.length), r)
    | .ok (some l) => register l record.frequency r

/-- The number of requests; all models see the same. -/
def totalRequests (r : EcptReducer) : Count := r.correct.requests

/-- The summary so far. -/
def summary (r : EcptReducer) : EcptSummary where
  meanMaxLatency := r.max.mean
  meanCorrectLatency := r.correct.mean
  meanParallelLatency := r.parallel.mean
  totalSavedLatency := r.savedLatency
  averageReduction := meanOf r.savedLatency r.totalRequests
  totalRequests := r.totalRequests

/-- The state in one line. -/
def describe (r : EcptReducer) : String :=
  toString r.totalRequests ++ " requests, avg latency " ++ Decimal.fixed 4 r.max.mean ++ " / " ++
    Decimal.fixed 4 r.correct.mean ++ " / " ++ Decimal.fixed 4 r.parallel.mean ++
    " (max / correct / parallel), " ++ toString r.savedLatency ++ " saved"

/-- What the records come to. -/
def statistics (r : EcptReducer) : Statistics where
  summary := .ecpt r.summary
  histograms := .ofList [("max", r.max.histogram), ("correct", r.correct.histogram),
    ("parallel", r.parallel.histogram)]
  breakdown := none

instance : Reducer EcptReducer := ⟨handle, describe, statistics⟩

end EcptReducer

end PageWalk
