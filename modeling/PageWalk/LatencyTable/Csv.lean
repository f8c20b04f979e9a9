/-
PageWalk/LatencyTable/Csv.lean

Latency tables as csv.  The columns depend on the design.  Where a number
of the summary is missing there is no summary, and an empty error is none.
A table never lists a benchmark twice.
-/
import PageWalk.Csv.Columns
import PageWalk.Files.Basic
import PageWalk.LatencyTable.Basic

namespace PageWalk.LatencyTable

/-- The names of the columns. -/
def header : Design → List String
  | .radix => ["Benchmark", "latency", "total requests", "error"]
  | .ecpt => ["Benchmark", "avg latency max", "avg latency correct", "avg latency parallel CWC",
      "avg reduction", "total saved latency", "total requests", "error"]

/-! ### Writing -/

/-- What a row says of a radix trace. -/
def radixTexts : Option RadixSummary → List String
  | some s => [Csv.ofFloat s.meanLatency, toString s.totalRequests]
  | none => ["", ""]

/-- What a row says of a cuckoo trace. -/
def ecptTexts : Option EcptSummary → List String
  | some s => [Csv.ofFloat s.meanMaxLatency, Csv.ofFloat s.meanCorrectLatency,
      Csv.ofFloat s.meanParallelLatency, Csv.ofFloat s.averageReduction,
      toString s.totalSavedLatency, toString s.totalRequests]
  | none => ["", "", "", "", "", ""]

/-- What a row says of its summary, which has to be of the table's design. -/
def summaryTexts (design : Design) (benchmark : String) (s? : Option Summary) :
    Except Cause (List String) :=
  match design, s? with
  | .radix, none => .ok (radixTexts none)
  | .radix, some (.radix s) => .ok (radixTexts (some s))
  | .ecpt, none => .ok (ecptTexts none)
  | .ecpt, some (.ecpt s) => .ok (ecptTexts (some s))
  | _, some _ => .error (.foreignSummary benchmark design)

/-- A row as texts, one for each column. -/
def rowTexts (design : Design) (benchmark : String) (row : Row) : Except Cause (List String) := do
  return benchmark :: (← summaryTexts design benchmark row.summary) ++ [row.error.getD ""]

/-- The csv text of a table. -/
def toCsv (t : LatencyTable) : Except Cause Bytes := do
  let rows ← t.rows.entries.mapM fun (benchmark, row) => rowTexts t.design benchmark row
  return Csv.renderTexts (header t.design :: rows)

/-- The rows before the first that cannot be written, and whether these are
all. -/
def writtenRows (design : Design) : List (String × Row) → List (List String) × Except Cause Unit
  | [] => ([], .ok ())
  | (benchmark, row) :: rows =>
    match rowTexts design benchmark row with
    | .error c => ([], .error c)
    | .ok texts =>
      let (written, whole) := writtenRows design rows
      (texts :: written, whole)

/-- The text of a table as it is written row by row, and whether it is whole: a
row that cannot be written ends it.  The names of the columns are written
with the first row, or alone if there are no rows at all. -/
def contents (t : LatencyTable) : Bytes × Except Cause Unit :=
  match writtenRows t.design t.rows.entries with
  | ([], .error c) => ([], .error c)
  | (rows, whole) => (Csv.renderTexts (header t.design :: rows), whole)

/-! ### Reading -/

/-- The columns as they are read: only the benchmark cannot be missing. -/
def columns (design : Design) : List Csv.Column :=
  (header design).zipIdx.map fun (name, i) => { name, required := i == 0 }

/-- The benchmark and the row that the fields of a line give. -/
def ofFields? : Design → List (Option String) → Option (String × Row)
  | .radix, [benchmark, latency, requests, error] => do
    let benchmark ← Csv.required? Csv.text? benchmark
    let latency ← Csv.optional? Decimal.float? latency
    let requests ← Csv.optional? Csv.counter? requests
    let error ← Csv.optional? Csv.text? error
    let summary := do return .radix ⟨← latency, ← requests⟩
    return (benchmark, { summary, error })
  | .ecpt, [benchmark, max, correct, parallel, reduction, saved, requests, error] => do
    let benchmark ← Csv.required? Csv.text? benchmark
    let max ← Csv.optional? Decimal.float? max
    let correct ← Csv.optional? Decimal.float? correct
    let parallel ← Csv.optional? Decimal.float? parallel
    let reduction ← Csv.optional? Decimal.float? reduction
    let saved ← Csv.optional? Csv.counter? saved
    let requests ← Csv.optional? Csv.counter? requests
    let error ← Csv.optional? Csv.text? error
    let summary := do
      return .ecpt ⟨← max, ← correct, ← parallel, ← saved, ← reduction, ← requests⟩
    return (benchmark, { summary, error })
  | _, _ => none

/-- The benchmark and the row that a line of a table gives. -/
def readRow (design : Design) (header : Csv.Header) (width : Nat) (line : List Bytes) :
    Except Cause (String × Row) := do
  let texts ← Csv.checkRow width line
  match (Csv.fields? (columns design) header texts).bind (ofFields? design) with
  | some row => .ok row
  | none => .error (.row .badField)

/-- The table with one more line, unless it lists that benchmark already. -/
def addLine (header : Csv.Header) (width : Nat) (t : LatencyTable) (line : List Bytes) :
    Except Error LatencyTable :=
  match readRow t.design header width line with
  | .error c => .error { cause := c, attempts := [.parseTableRow t.design] }
  | .ok (benchmark, row) =>
    if t.rows.contains benchmark then fail (.duplicateBenchmark benchmark)
    else .ok (t.insert benchmark row)

/-- The table that a csv text gives. -/
def ofCsv (design : Design) (text : Bytes) : Except Error LatencyTable :=
  match Csv.parse text with
  | [] => .ok (empty design)
  | first :: lines => lines.foldlM (addLine (Csv.headerOf first) first.length) (empty design)

/-! ### Files -/

variable {m : Type → Type} [Monad m] [Files m]

/-- Read the table of a design.  What can be opened but not read is a table
without rows. -/
def read (path : Path) (design : Design) : m (Except Error LatencyTable) := do
  match ← Files.openFile path with
  | .error e => return .error { cause := .file e, attempts := [.openTable path] }
  | .ok .directory => return .ok (empty design)
  | .ok (.contents text) => return attempting (.readTable path) (ofCsv design text)

/-- Write a table. -/
def write (t : LatencyTable) (path : Path) : m (Except Error Unit) := do
  let (text, whole) := t.contents
  match ← Files.write path text with
  | .error e => return .error { cause := .file e, attempts := [.createTable path] }
  | .ok () =>
    return match whole with
      | .ok () => .ok ()
      | .error c => .error { cause := c, attempts := [.writeTable path] }

end PageWalk.LatencyTable
