/-
PageWalk/Comparison/Display.lean

Comparisons as aligned text: a line of column names, a line for each
benchmark, and the mean speedup.  Only the column of benchmarks is made for
its contents, and can be too wide.
-/
import PageWalk.Comparison.Csv

namespace PageWalk.Comparison

/-- The width of the column of benchmarks. -/
def benchmarkWidth (c : Comparison) : Nat :=
  c.rows.keys.foldl (fun width name => max width (Text.byteLength name))
    (Text.byteLength "Benchmark")

/-- A line, with the benchmark at the left of its column and numbers at the
right of theirs, unless the column of the benchmark is too wide. -/
def line? (width : Nat) (benchmark baseline candidate speedup : String) : Option String := do
  return (← Text.alignLeft? width benchmark) ++ "  " ++ Text.padLeft 12 baseline ++ "  " ++
    Text.padLeft 13 candidate ++ "  " ++ Text.padLeft 8 speedup ++ "\n"

/-- The line of a row. -/
def rowLine? (width : Nat) (benchmark : String) (row : Row) : Option String :=
  line? width benchmark (Decimal.fixed 6 row.baseline) (Decimal.fixed 6 row.candidate)
    (Decimal.fixed 4 row.speedup)

/-- The lines of a comparison, with a column of some width for the
benchmarks. -/
def layout? (c : Comparison) (width : Nat) : Option String := do
  let head ← line? width "Benchmark" "baseline IPC" "candidate IPC" "speedup"
  let rows ← c.rows.entries.mapM fun (benchmark, row) => rowLine? width benchmark row
  return head ++ String.join rows ++ "mean speedup: " ++ Decimal.fixed 4 c.meanSpeedup ++
    " ± " ++ Decimal.fixed 4 c.meanSpeedupError ++ "\n"

/-- The text of a comparison. -/
def display (c : Comparison) : Except Cause String :=
  match c.layout? c.benchmarkWidth with
  | some text => .ok text
  | none => .error .columnTooWide

end PageWalk.Comparison
