/-
PageWalk/Comparison/Csv.lean

Comparisons as csv.  Only the rows are kept; without rows there is no
header either.  Where a text lists a benchmark twice, the later row counts.
-/
import PageWalk.Comparison.Basic
import PageWalk.Csv.Named

namespace PageWalk.Comparison

/-- The names of the columns. -/
def header : List String := ["Benchmark", "baseline_ipc", "candidate_ipc", "speedup"]

/-- A row as texts, one for each column. -/
def rowTexts (benchmark : String) (row : Row) : List String :=
  [benchmark, Csv.ofFloat row.baseline, Csv.ofFloat row.candidate, Csv.ofFloat row.speedup]

/-- The csv text of a comparison. -/
def toCsv (c : Comparison) : Bytes :=
  if c.rows.isEmpty then []
  else Csv.renderTexts (header :: c.rows.entries.map fun (benchmark, row) => rowTexts benchmark row)

/-- The columns that are read. -/
def columns : List Csv.Column := header.map fun name => { name, required := true }

/-- The benchmark and the row that the fields of a line give. -/
def ofFields? : List (Option String) → Option (String × Row)
  | [benchmark, baseline, candidate, speedup] => do
    return (← Csv.required? Csv.text? benchmark,
      ⟨← Csv.required? Decimal.float? baseline, ← Csv.required? Decimal.float? candidate,
        ← Csv.required? Decimal.float? speedup⟩)
  | _ => none

/-- The rows that a csv text gives. -/
def rowsOfCsv (text : Bytes) : Except Error (SortedMap String Row) :=
  Csv.foldNamed columns ofFields? (fun rows row => .ok (rows.insert row.1 row.2)) .empty text

/-- Write a comparison. -/
def write {m : Type → Type} [Monad m] [Files m] (c : Comparison) (path : Path) :
    m (Except Error Unit) := do
  return match ← Files.write path c.toCsv with
    | .error e => .error { cause := .file e, attempts := [.createComparison path] }
    | .ok () => .ok ()

end PageWalk.Comparison
