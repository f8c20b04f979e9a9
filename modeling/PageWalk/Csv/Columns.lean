/-
PageWalk/Csv/Columns.lean

Reading csv rows by columns.  The first row names the columns; columns are
found by their names, in any order, and columns of other names are passed
over.  If the names spell no text, the columns are taken in their order.
-/
import PageWalk.Csv.Format
import PageWalk.Decimal.Style
import PageWalk.Error
import PageWalk.Text.Numeral

namespace PageWalk.Csv

/-- How the columns of a text are told apart. -/
inductive Header where
  | named (names : List String)
  | byPosition
deriving DecidableEq

/-- A column that rows are read from. -/
structure Column where
  name : String
  required : Bool := false
deriving DecidableEq

/-- The text of a row, if its bytes spell one. -/
def rowText? (row : List Bytes) : Option (List String) :=
  row.mapM fun field => (Utf8.decode? field).map String.ofList

/-- The header that the first row gives. -/
def headerOf (row : List Bytes) : Header :=
  match rowText? row with
  | some names => .named names
  | none => .byPosition

/-- The text of a row that is to have `width` fields. -/
def checkRow (width : Nat) (row : List Bytes) : Except Cause (List String) :=
  if row.length ≠ width then .error (.row .unequalLengths)
  else match rowText? row with
    | some texts => .ok texts
    | none => .error (.row .notText)

/-- The field of a column among fields with names; `none` if it is doubled,
or missing and required. -/
def field? (fields : List (String × String)) (column : Column) : Option (Option String) :=
  match fields.filter (·.1 == column.name) with
  | [] => if column.required then none else some none
  | [(_, text)] => some (some text)
  | _ => none

/-- The fields of the columns in a row. -/
def fields? (columns : List Column) (header : Header) (row : List String) :
    Option (List (Option String)) :=
  match header with
  | .named names => columns.mapM (field? (names.zip row))
  | .byPosition =>
    if row.length < columns.length then none else some ((row.take columns.length).map some)

/-- A field that must be there, by `read`. -/
def required? {α : Type} (read : List Char → Option α) : Option String → Option α
  | some text => read text.toList
  | none => none

/-- A field that may be missing or empty. -/
def optional? {α : Type} (read : List Char → Option α) : Option String → Option (Option α)
  | none => some none
  | some text => if text.isEmpty then some none else (read text.toList).map some

/-- A field as text. -/
def text? (cs : List Char) : Option String := some (String.ofList cs)

/-- The counter that a field spells, in decimal or after `0x` in base 16. -/
def counter? {bits : Nat} : List Char → Option (Counter bits)
  | '0' :: 'x' :: cs => (Text.hexNumeral? (Text.dropPlus cs)).bind Counter.ofNat?
  | cs => Counter.parse? cs

/-- Csv numbers have a point or an exponent, and no sign before an exponent
that is not negative. -/
def numberStyle : Decimal.Style where
  tie := .toEven
  positional := some (-5, 16)
  wholeFraction := true
  exponentSign := ""
  notANumber := "NaN"
  infinity := "inf"
  negativeInfinity := "-inf"

/-- The text of a number. -/
def ofFloat (x : Float) : String := numberStyle.render x

/-- A text that may be missing. -/
def ofOption {α : Type} (write : α → String) : Option α → String
  | some a => write a
  | none => ""

/-- Rows of texts as they are written. -/
def renderTexts (rows : List (List String)) : Bytes :=
  render (rows.map fun row => row.map fun text => Utf8.encode text.toList)

end PageWalk.Csv
