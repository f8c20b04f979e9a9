/-
PageWalk/Statistics/Basic.lean

All that is kept of one trace: its summary, its histograms by name, and,
for radix walks, the breakdown of their probes.
-/
import PageWalk.Statistics.Breakdown
import PageWalk.Statistics.Histogram
import PageWalk.Summary

namespace PageWalk

/-- The statistics of a trace. -/
structure Statistics where
  summary : Summary
  histograms : SortedMap String Histogram
  breakdown : Option Breakdown

namespace Statistics

/-- The names of the parts in files. -/
def fieldSpecs : List Json.FieldSpec :=
  [{ name := "summary" }, { name := "histograms" }, { name := "breakdown", presence := .optional }]

/-- The histograms that a json value gives, by name. -/
def histogramsOfJson? : Json → Option (SortedMap String Histogram)
  | .object members => do
    let entries ← members.mapM fun (key, j) => do
      return (← Json.spelledText? key, ← Histogram.ofJson? j)
    return .ofList entries
  | _ => none

/-- The statistics that a json value gives. -/
def ofJson? (j : Json) : Option Statistics := do
  match ← j.fields? false fieldSpecs with
  | [summary, histograms, breakdown] =>
    return ⟨← Json.field? Summary.ofJson? summary, ← Json.field? histogramsOfJson? histograms,
      ← Json.optional? Breakdown.ofJson? breakdown⟩
  | _ => none

/-- The json value of statistics. -/
def toJson (s : Statistics) : Json :=
  .ofMembers [("summary", s.summary.toJson),
    ("histograms", .ofMembers (s.histograms.entries.map fun (name, h) => (name, h.toJson))),
    ("breakdown", .ofOption Breakdown.toJson s.breakdown)]

end Statistics

end PageWalk
