/-
PageWalk/Csv/Named.lean

Reading csv texts whose columns must have names: row by row, into
something that takes the rows one after the other.
-/
import PageWalk.Csv.Columns

namespace PageWalk.Csv

/-- What a line gives, by `ofFields?`. -/
def readNamed {ρ : Type} (columns : List Column) (ofFields? : List (Option String) → Option ρ)
    (names : List String) (line : List Bytes) : Except Error ρ :=
  match checkRow names.length line with
  | .error c => .error { cause := c, attempts := [.readRow] }
  | .ok texts =>
    match (fields? columns (.named names) texts).bind ofFields? with
    | some row => .ok row
    | none => .error { cause := .row .badField, attempts := [.parseRow] }

/-- What the lines of a text come to, if `add` takes them to `start`. -/
def foldNamed {ρ τ : Type} (columns : List Column)
    (ofFields? : List (Option String) → Option ρ) (add : τ → ρ → Except Error τ) (start : τ)
    (text : Bytes) : Except Error τ :=
  match parse text with
  | [] => .ok start
  | first :: lines =>
    match rowText? first with
    | none => .error { cause := .row .notText, attempts := [.readHeader] }
    | some names =>
      lines.foldlM (fun t line => do add t (← readNamed columns ofFields? names line)) start

end PageWalk.Csv
