/-
PageWalk/Csv/Format.lean

Comma separated values, as bytes.  A row ends with a newline or a carriage
return, and empty lines are no rows.  A field that starts with a quote
runs to the next quote that is not doubled; what follows that quote still
belongs to the field.  A byte order mark at the start is no content.

Writing quotes a field exactly where reading would otherwise take it apart.
-/
import PageWalk.Text.Utf8

namespace PageWalk.Csv

/-- The byte between two fields. -/
def comma : UInt8 := 0x2C

/-- The byte around a quoted field. -/
def quote : UInt8 := 0x22

/-- Whether a byte ends a row. -/
def endsRow (b : UInt8) : Bool := b == 0x0A || b == 0x0D

/-! ### Reading -/

/-- Where in a row a byte stands. -/
inductive Place where
  /-- Before a row. -/
  | row
  /-- Before a field. -/
  | field
  /-- In a field without quotes, or after its closing quote. -/
  | plain
  /-- Between the quotes of a field. -/
  | quoted
  /-- After a quote in a quoted field. -/
  | afterQuote
deriving DecidableEq

/-- The rows with one more byte at the front of the first field. -/
def consByte (b : UInt8) : List (List Bytes) → List (List Bytes)
  | (f :: fs) :: rows => ((b :: f) :: fs) :: rows
  | rows => rows

/-- The rows with one more field, empty, at the front of the first row. -/
def consField : List (List Bytes) → List (List Bytes)
  | fs :: rows => ([] :: fs) :: rows
  | [] => []

/-- The rows of what follows a place.  Anywhere but before a row, the first
field of the first row is what remains of the current field. -/
def rowsFrom : Place → Bytes → List (List Bytes)
  | .row, [] => []
  | _, [] => [[[]]]
  | .row, b :: bs =>
    if endsRow b then rowsFrom .row bs
    else if b == quote then rowsFrom .quoted bs
    else if b == comma then consField (rowsFrom .field bs)
    else consByte b (rowsFrom .plain bs)
  | .field, b :: bs =>
    if b == quote then rowsFrom .quoted bs
    else if b == comma then consField (rowsFrom .field bs)
    else if endsRow b then [[]] :: rowsFrom .row bs
    else consByte b (rowsFrom .plain bs)
  | .plain, b :: bs =>
    if b == comma then consField (rowsFrom .field bs)
    else if endsRow b then [[]] :: rowsFrom .row bs
    else consByte b (rowsFrom .plain bs)
  | .quoted, b :: bs =>
    if b == quote then rowsFrom .afterQuote bs
    else consByte b (rowsFrom .quoted bs)
  | .afterQuote, b :: bs =>
    if b == quote then consByte b (rowsFrom .quoted bs)
    else if b == comma then consField (rowsFrom .field bs)
    else if endsRow b then [[]] :: rowsFrom .row bs
    else consByte b (rowsFrom .plain bs)

/-- The bytes after a byte order mark. -/
def dropMark : Bytes → Bytes
  | 0xEF :: 0xBB :: 0xBF :: bs => bs
  | bs => bs

/-- The rows of a csv text. -/
def parse (bs : Bytes) : List (List Bytes) := rowsFrom .row (dropMark bs)

/-! ### Writing -/

/-- Whether a field has to be quoted. -/
def needsQuotes (f : Bytes) : Bool := f.any fun b => b == comma || b == quote || endsRow b

/-- A field between quotes, those in it doubled. -/
def quoted (f : Bytes) : Bytes :=
  quote :: f.flatMap (fun b => if b == quote then [quote, quote] else [b]) ++ [quote]

/-- A field as it is written. -/
def renderField (f : Bytes) : Bytes := if needsQuotes f then quoted f else f

/-- A row as it is written.  One empty field alone is quoted, as it would
be an empty line. -/
def renderRow (fs : List Bytes) : Bytes :=
  (if fs == [[]] then [quote, quote] else [comma].intercalate (fs.map renderField)) ++ [0x0A]

/-- Rows as they are written. -/
def render (rows : List (List Bytes)) : Bytes := rows.flatMap renderRow

end PageWalk.Csv
