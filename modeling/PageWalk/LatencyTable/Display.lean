/-
PageWalk/LatencyTable/Display.lean

Latency tables as aligned text: a line of column names, then a line for
each benchmark.  An error stands in brackets after the columns of its row.

A column is as wide as the longest byte sequence in it; cells are filled
up to that many characters, of which they never have more.  A table with a
column that is too wide cannot be displayed.
-/
import PageWalk.LatencyTable.Csv

namespace PageWalk.LatencyTable

/-- The names of the columns that are shown. -/
def shownHeader (design : Design) : List String := (header design).dropLast

/-- The cells of a summary. -/
def summaryCells : Summary → List String
  | .radix s => [Decimal.fixed 4 s.meanLatency, toString s.totalRequests]
  | .ecpt s => [Decimal.fixed 4 s.meanMaxLatency, Decimal.fixed 4 s.meanCorrectLatency,
      Decimal.fixed 4 s.meanParallelLatency, Decimal.fixed 4 s.averageReduction,
      toString s.totalSavedLatency, toString s.totalRequests]

/-- The cells of a row. -/
def cells (design : Design) (benchmark : String) (row : Row) : List String :=
  benchmark :: (match row.summary with
    | some s => summaryCells s
    | none => List.replicate ((shownHeader design).length - 1) "-") ++
    (row.error.map fun error => "(" ++ error ++ ")").toList

/-- The lines of a table, as cells. -/
def cellRows (t : LatencyTable) : List (List String) :=
  shownHeader t.design :: t.rows.entries.map fun (benchmark, row) => cells t.design benchmark row

/-- The width of a column of some lines. -/
def columnWidth (lines : List (List String)) (i : Nat) : Nat :=
  (lines.filterMap (·[i]?)).foldl (fun width cell => max width (Text.byteLength cell)) 0

/-- The widths of the first columns of some lines. -/
def columnWidths (lines : List (List String)) (columns : Nat) : List Nat :=
  (List.range columns).map (columnWidth lines)

/-- What stands between two columns. -/
def gap : String := "  "

/-- A line of cells, unless a column of theirs is too wide.  Cells beyond the
last width are not filled up. -/
def line? : List Nat → List String → Option String
  | _, [] => some ""
  | [], cell :: cells => do return cell ++ gap ++ (← line? [] cells)
  | width :: widths, cell :: cells => do
    return (← Text.alignLeft? width cell) ++ gap ++ (← line? widths cells)

/-- The widths of the columns of a table. -/
def widths (t : LatencyTable) : List Nat :=
  columnWidths t.cellRows (shownHeader t.design).length

/-- The text of a table. -/
def display (t : LatencyTable) : Except Cause String :=
  match t.cellRows.mapM (line? t.widths) with
  | some lines => .ok (String.join (lines.map (· ++ "\n")))
  | none => .error .columnTooWide

end PageWalk.LatencyTable
