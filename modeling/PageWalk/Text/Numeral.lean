/-
PageWalk/Text/Numeral.lean

Decimal numerals and the counters they denote.  A numeral is one or more
of the digits 0 to 9; a counter may carry one plus sign in front, and no
other spelling is read.
-/
import PageWalk.Counter

namespace PageWalk

namespace Text

/-- The value of one digit. -/
def digitValue (c : Char) : Nat := c.toNat - '0'.toNat

/-- The value of a row of digits. -/
def numeralValue (ds : List Char) : Nat := ds.foldl (fun n d => n * 10 + digitValue d) 0

/-- The value of a numeral; `none` for any other text. -/
def numeral? (cs : List Char) : Option Nat :=
  if !cs.isEmpty && cs.all Char.isDigit then some (numeralValue cs) else none

/-- The numeral of a number, with no zero in front. -/
def numeral (n : Nat) : List Char := Nat.toDigits 10 n

/-- A text without one plus sign in front. -/
def dropPlus : List Char → List Char
  | '+' :: cs => cs
  | cs => cs

/-- The value of a digit to base 16, in either case. -/
def hexDigitValue? (c : Char) : Option Nat :=
  let n := c.toNat
  if 0x30 ≤ n && n ≤ 0x39 then some (n - 0x30)
  else if 0x41 ≤ n && n ≤ 0x46 then some (n - 0x37)
  else if 0x61 ≤ n && n ≤ 0x66 then some (n - 0x57)
  else none

/-- The value of a row of one or more digits to base 16. -/
def hexNumeral? (cs : List Char) : Option Nat :=
  if cs.isEmpty then none
  else cs.foldlM (fun n c => (hexDigitValue? c).map (n * 16 + ·)) 0

end Text

namespace Counter

/-- The counter that a text denotes: a numeral of fitting value, with an
optional plus sign. -/
def parse? {bits : Nat} (cs : List Char) : Option (Counter bits) :=
  (Text.numeral? (Text.dropPlus cs)).bind ofNat?

end Counter

end PageWalk
