/-
PageWalk/Summary.lean

Summaries: the mean latencies of a trace under the models of its design.
-/
import PageWalk.Json.Fields
import PageWalk.Json.Printer
import PageWalk.Design

namespace PageWalk

/-- Which latency of a cuckoo walk counts as its latency. -/
inductive Metric where
  /-- Waiting for the slowest probe. -/
  | max
  /-- Going straight to the correct probe. -/
  | correct
  /-- The same, with both walk caches looked up at once. -/
  | parallel
deriving DecidableEq

namespace Metric

/-- The metric where none is chosen. -/
instance : Inhabited Metric := ⟨parallel⟩

/-- The name of a metric. -/
def name : Metric → String
  | max => "max"
  | correct => "correct"
  | parallel => "parallel"

/-- The metric with a name. -/
def ofName? (name : String) : Option Metric :=
  [max, correct, parallel].find? fun m => m.name == name

end Metric

/-- The summary of radix walks. -/
structure RadixSummary where
  meanLatency : Float
  totalRequests : Count
deriving DecidableEq

/-- The summary of cuckoo walks. -/
structure EcptSummary where
  meanMaxLatency : Float
  meanCorrectLatency : Float
  meanParallelLatency : Float
  /-- The cycles saved by knowing the correct probe. -/
  totalSavedLatency : Total
  /-- The cycles saved by a request, in the mean. -/
  averageReduction : Float
  totalRequests : Count
deriving DecidableEq

/-- The summary of a trace. -/
inductive Summary where
  | radix (summary : RadixSummary)
  | ecpt (summary : EcptSummary)
deriving DecidableEq

namespace Summary

/-- The design of the walks. -/
def design : Summary → Design
  | radix _ => .radix
  | ecpt _ => .ecpt

/-- The number of requests. -/
def totalRequests : Summary → Count
  | radix s => s.totalRequests
  | ecpt s => s.totalRequests

/-- The mean latency of a page walk; the metric chooses it for cuckoo
walks. -/
def pageWalkLatency (metric : Metric) : Summary → Float
  | radix s => s.meanLatency
  | ecpt s => match metric with
    | .max => s.meanMaxLatency
    | .correct => s.meanCorrectLatency
    | .parallel => s.meanParallelLatency

/-- The text of a summary. -/
def display : Summary → String
  | radix s =>
    "avg latency: " ++ Decimal.fixed 4 s.meanLatency ++ ", total requests: " ++
      toString s.totalRequests
  | ecpt s =>
    "avg latency (max / correct / parallel): " ++ Decimal.fixed 4 s.meanMaxLatency ++ " / " ++
      Decimal.fixed 4 s.meanCorrectLatency ++ " / " ++ Decimal.fixed 4 s.meanParallelLatency ++
      ", total requests: " ++ toString s.totalRequests ++ ", total saved latency: " ++
      toString s.totalSavedLatency ++ ", avg reduction: " ++ Decimal.fixed 4 s.averageReduction

/-! ### Json -/

/-- The names of the numbers of a radix summary in files. -/
def radixFields : List Json.FieldSpec :=
  [{ name := "mean_latency" }, { name := "total_requests" }]

/-- The names of the numbers of a cuckoo summary in files. -/
def ecptFields : List Json.FieldSpec :=
  [{ name := "mean_max_latency" }, { name := "mean_correct_latency" },
    { name := "mean_parallel_latency" }, { name := "total_saved_latency" },
    { name := "avg_reduction" }, { name := "total_requests" }]

/-- The radix summary that a json value gives. -/
def radixOfJson? (j : Json) : Option RadixSummary := do
  match ← j.fields? false radixFields with
  | [meanLatency, totalRequests] =>
    return ⟨← Json.field? Json.float? meanLatency, ← Json.field? Json.counter? totalRequests⟩
  | _ => none

/-- The cuckoo summary that a json value gives. -/
def ecptOfJson? (j : Json) : Option EcptSummary := do
  match ← j.fields? false ecptFields with
  | [meanMax, meanCorrect, meanParallel, totalSaved, averageReduction, totalRequests] =>
    return ⟨← Json.field? Json.float? meanMax, ← Json.field? Json.float? meanCorrect,
      ← Json.field? Json.float? meanParallel, ← Json.field? Json.counter? totalSaved,
      ← Json.field? Json.float? averageReduction, ← Json.field? Json.counter? totalRequests⟩
  | _ => none

/-- The summary that a json value gives, under the name of its design. -/
def ofJson? (j : Json) : Option Summary := do
  let (name, contents) ← j.tagged?
  match ← Design.ofName? name with
  | .radix => (radixOfJson? contents).map radix
  | .ecpt => (ecptOfJson? contents).map ecpt

/-- The json value of a summary. -/
def toJson : Summary → Json
  | radix s => .ofMembers [("radix", .ofMembers
      [("mean_latency", .ofFloat s.meanLatency), ("total_requests", .ofCounter s.totalRequests)])]
  | ecpt s => .ofMembers [("ecpt", .ofMembers
      [("mean_max_latency", .ofFloat s.meanMaxLatency),
        ("mean_correct_latency", .ofFloat s.meanCorrectLatency),
        ("mean_parallel_latency", .ofFloat s.meanParallelLatency),
        ("total_saved_latency", .ofCounter s.totalSavedLatency),
        ("avg_reduction", .ofFloat s.averageReduction),
        ("total_requests", .ofCounter s.totalRequests)])]

end Summary

end PageWalk
