/-
PageWalk/Statistics/Histogram.lean

Histograms: how many requests had each latency.  No latency is listed with
zero requests by registering.
-/
import PageWalk.Costs
import PageWalk.SortedMap

namespace PageWalk

/-- The number of requests at each latency. -/
structure Histogram where
  counts : SortedMap Count Count

namespace Histogram

/-- The histogram of no requests. -/
def empty : Histogram := ⟨.empty⟩

instance : Inhabited Histogram := ⟨empty⟩

/-- The number of requests at a latency. -/
def frequency (h : Histogram) (latency : Count) : Count := (h.counts.get? latency).getD 0

/-- The histogram with `frequency` more requests at `latency`. -/
def register (h : Histogram) (latency frequency : Count) : Except Cause Histogram :=
  if frequency.val = 0 then .ok h
  else do
    let sum ← (h.frequency latency).plus frequency
    return ⟨h.counts.insert latency sum⟩

/-- Whether no requests are registered. -/
def isEmpty (h : Histogram) : Bool := h.counts.isEmpty

/-- The latency that a key of an object spells: digits without a zero in
front and without escapes. -/
def latencyKey? (key : Bytes) : Option Count :=
  match key with
  | 0x30 :: _ :: _ => none
  | _ => Json.counter? (.number (key.map fun b => Char.ofNat b.toNat))

/-- The histogram that a json value gives; the last of equal keys counts. -/
def ofJson? : Json → Option Histogram
  | .object members => do
    let entries ← members.mapM fun (key, j) => do
      return (← latencyKey? key, ← Json.counter? j)
    return ⟨.ofList entries⟩
  | _ => none

/-- The json value of a histogram: an object from latencies to requests. -/
def toJson (h : Histogram) : Json :=
  .ofMembers (h.counts.entries.map fun (latency, n) => (toString latency, .ofCounter n))

end Histogram

end PageWalk
