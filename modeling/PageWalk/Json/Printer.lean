/-
PageWalk/Json/Printer.lean

Writing json: on one line without spaces (`compact`), or with one item or
member a line, two spaces further in than what holds it (`pretty`).
-/
import PageWalk.Decimal.Style
import PageWalk.Json.Value

namespace PageWalk.Json

/-- The bytes of an ASCII text. -/
def ascii (s : String) : Bytes := Utf8.encode s.toList

/-- A string between its quotes. -/
def quoted (spelling : Bytes) : Bytes := 0x22 :: spelling ++ [0x22]

/-- The text of a truth value. -/
def ofBool (b : Bool) : Bytes := ascii (if b then "true" else "false")

mutual

/-- A value on one line. -/
def compact : Json → Bytes
  | null => ascii "null"
  | bool b => ofBool b
  | number digits => Utf8.encode digits
  | string spelling => quoted spelling
  | array items => 0x5B :: compactItems items ++ [0x5D]
  | object members => 0x7B :: compactMembers members ++ [0x7D]

/-- Items with commas between them. -/
def compactItems : List Json → Bytes
  | [] => []
  | [j] => compact j
  | j :: js => compact j ++ 0x2C :: compactItems js

/-- Members with commas between them. -/
def compactMembers : List (Bytes × Json) → Bytes
  | [] => []
  | [(key, j)] => quoted key ++ 0x3A :: compact j
  | (key, j) :: ms => quoted key ++ 0x3A :: compact j ++ 0x2C :: compactMembers ms

end

/-- A new line, `depth` levels in. -/
def newLine (depth : Nat) : Bytes := 0x0A :: List.replicate (2 * depth) 0x20

mutual

/-- A value over several lines, `depth` levels in. -/
def prettyAt (depth : Nat) : Json → Bytes
  | null => ascii "null"
  | bool b => ofBool b
  | number digits => Utf8.encode digits
  | string spelling => quoted spelling
  | array [] => [0x5B, 0x5D]
  | array items => 0x5B :: prettyItems (depth + 1) items ++ newLine depth ++ [0x5D]
  | object [] => [0x7B, 0x7D]
  | object members => 0x7B :: prettyMembers (depth + 1) members ++ newLine depth ++ [0x7D]

/-- Items on lines of their own. -/
def prettyItems (depth : Nat) : List Json → Bytes
  | [] => []
  | [j] => newLine depth ++ prettyAt depth j
  | j :: js => newLine depth ++ prettyAt depth j ++ 0x2C :: prettyItems depth js

/-- Members on lines of their own. -/
def prettyMembers (depth : Nat) : List (Bytes × Json) → Bytes
  | [] => []
  | [(key, j)] => newLine depth ++ quoted key ++ [0x3A, 0x20] ++ prettyAt depth j
  | (key, j) :: ms =>
    newLine depth ++ quoted key ++ [0x3A, 0x20] ++ prettyAt depth j ++
      0x2C :: prettyMembers depth ms

end

/-- A value over several lines. -/
def pretty (j : Json) : Bytes := prettyAt 0 j

/-- Json numbers have a point or an exponent, and a plus sign before an
exponent that is not negative.  What is no finite number is null. -/
def numberStyle : Decimal.Style where
  tie := .toEven
  positional := some (-5, 16)
  wholeFraction := true
  exponentSign := "+"
  notANumber := "null"
  infinity := "null"
  negativeInfinity := "null"

/-- The value of a double: a number if it is finite, else null. -/
def ofFloat (x : Float) : Json :=
  if x.isFinite then number (numberStyle.render x).toList else null

end PageWalk.Json
