/-
PageWalk/Decimal/Reading.lean

Reading decimals as doubles, rounded to the nearest, of two the even one.
The accepted texts are an optional sign, then digits with at most one
point and at least one digit, then an optional exponent; or one of the
words `inf`, `infinity` and `nan` in any case.
-/
import PageWalk.Text.Numeral

namespace PageWalk.Decimal

/-- The double nearest to `d * 10 ^ e`.  Decimals far outside the range of
doubles are decided without computing them. -/
def nearestFloat (d : Nat) (e : Int) : Float :=
  let point : Int := (Nat.toDigits 10 d).length + e
  if d = 0 || point < -330 then 0.0
  else if 330 < point then 1.0 / 0.0
  else if 0 ≤ e then Float.ofScientific d false e.toNat
  else Float.ofScientific d true (-e).toNat

/-- The sign at the front of a text, and the rest. -/
def splitSign : List Char → Bool × List Char
  | '-' :: cs => (true, cs)
  | '+' :: cs => (false, cs)
  | cs => (false, cs)

/-- The exponent that a text spells: nothing, or `e` and a numeral with an
optional sign. -/
def exponent? : List Char → Option Int
  | [] => some 0
  | c :: cs =>
    if c = 'e' || c = 'E' then
      let (negative, ds) := splitSign cs
      (Text.numeral? ds).map fun n => if negative then -(n : Int) else (n : Int)
    else none

/-- The decimal `d * 10 ^ e` that an unsigned text spells, as `(d, e)`. -/
def decimal? (cs : List Char) : Option (Nat × Int) :=
  let whole := cs.takeWhile Char.isDigit
  let rest := cs.dropWhile Char.isDigit
  let (fraction, rest) := match rest with
    | '.' :: rest => (rest.takeWhile Char.isDigit, rest.dropWhile Char.isDigit)
    | rest => ([], rest)
  if whole.isEmpty && fraction.isEmpty then none
  else (exponent? rest).map fun e =>
    (Text.numeralValue (whole ++ fraction), e - fraction.length)

/-- The double that a text spells. -/
def float? (cs : List Char) : Option Float :=
  let (negative, cs) := splitSign cs
  let word := cs.map Char.toLower
  let magnitude :=
    if word = ['i', 'n', 'f'] || word = ['i', 'n', 'f', 'i', 'n', 'i', 't', 'y'] then
      some (1.0 / 0.0)
    else if word = ['n', 'a', 'n'] then some (0.0 / 0.0)
    else (decimal? cs).map fun (d, e) => nearestFloat d e
  magnitude.map fun x => if negative then -x else x

end PageWalk.Decimal
