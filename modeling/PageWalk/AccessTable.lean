/-
PageWalk/AccessTable.lean

Access tables: how often each benchmark requests memory, hits the
translation buffer and walks the page table.  With the latency of a page
walk these rates give instructions per cycle (`AccessRates.ipc`).
-/
import PageWalk.Csv.Named
import PageWalk.Decimal.Reading
import PageWalk.Files.Basic
import PageWalk.SortedMap

namespace PageWalk

/-- The access rates of a benchmark. -/
structure AccessRates where
  memoryRequests : Float
  tlbHits : Float
  tlbHitLatency : Float
  pageWalks : Float
deriving DecidableEq

/-- The instructions per cycle, if a page walk takes `latency`.  A walk
comes after a failed look-up, which takes as long as a hit. -/
def AccessRates.ipc (r : AccessRates) (latency : Float) : Float :=
  r.memoryRequests / (r.tlbHits * r.tlbHitLatency + r.pageWalks * (latency + r.tlbHitLatency))

/-- The access rates of benchmarks. -/
abbrev AccessTable := SortedMap String AccessRates

namespace AccessTable

/-- The columns that are read. -/
def columns : List Csv.Column :=
  ["Benchmark", "Memory Request", "TLB Hit", "TLB Hit Latency", "Page Walk"].map fun name =>
    { name, required := true }

/-- The benchmark and the rates that the fields of a line give. -/
def ofFields? : List (Option String) → Option (String × AccessRates)
  | [benchmark, requests, hits, latency, walks] => do
    return (← Csv.required? Csv.text? benchmark,
      ⟨← Csv.required? Decimal.float? requests, ← Csv.required? Decimal.float? hits,
        ← Csv.required? Decimal.float? latency, ← Csv.required? Decimal.float? walks⟩)
  | _ => none

/-- The table with one more benchmark, unless it lists that already. -/
def add (t : AccessTable) (row : String × AccessRates) : Except Error AccessTable :=
  if t.contains row.1 then fail (.duplicateBenchmark row.1) else .ok (t.insert row.1 row.2)

/-- The table that a csv text gives. -/
def ofCsv (text : Bytes) : Except Error AccessTable :=
  Csv.foldNamed columns ofFields? add .empty text

/-- Read a table. -/
def read {m : Type → Type} [Monad m] [Files m] (path : Path) : m (Except Error AccessTable) := do
  match ← Files.openFile path with
  | .error e => return .error { cause := .file e, attempts := [.openAccess path] }
  | .ok opened =>
    return match opened.read with
      | .error e => .error { cause := .file e, attempts := [.readHeader, .readAccess path] }
      | .ok text => attempting (.readAccess path) (ofCsv text)

end AccessTable

end PageWalk
