/-
PageWalk/Decimal/Style.lean

Ways of writing doubles.  A `Style` lists the choices that a format
makes around the shortest digits; `render` applies it.  `fixed` writes a
given number of places instead.
-/
import PageWalk.Decimal.Shortest

namespace PageWalk.Decimal

/-- The choices of a format that writes the shortest digits. -/
structure Style where
  /-- Which of two equally near decimals is written. -/
  tie : Tie
  /-- How far left and right of the first digit the point may stand for the
  number to be written without an exponent; `none` if it always is. -/
  positional : Option (Int × Int)
  /-- Whether a whole number gets `.0`. -/
  wholeFraction : Bool
  /-- What stands before an exponent that is not negative. -/
  exponentSign : String
  /-- The texts of what is no finite number. -/
  notANumber : String
  infinity : String
  negativeInfinity : String

/-- The text of `n` zeros. -/
def zeros (n : Nat) : String := String.ofList (List.replicate n '0')

/-- Digits with the point after the first `point` of them. -/
def Style.place (format : Style) (digits : String) (point : Int) : String :=
  let size : Int := digits.length
  if size ≤ point then
    digits ++ zeros (point - size).toNat ++ (if format.wholeFraction then ".0" else "")
  else if 0 < point then
    String.ofList (digits.toList.take point.toNat) ++ "." ++
      String.ofList (digits.toList.drop point.toNat)
  else "0." ++ zeros (-point).toNat ++ digits

/-- Digits with an exponent, one digit before the point. -/
def Style.scientific (format : Style) (digits : String) (point : Int) : String :=
  let exponent := point - 1
  let mantissa := match digits.toList with
    | [] => ""
    | [d] => String.ofList [d]
    | d :: ds => String.ofList (d :: '.' :: ds)
  mantissa ++ "e" ++ (if 0 ≤ exponent then format.exponentSign else "") ++ toString exponent

/-- The text of a double. -/
def Style.render (format : Style) (x : Float) : String :=
  match Double.ofFloat x with
  | .notANumber => format.notANumber
  | .infinite negative => if negative then format.negativeInfinity else format.infinity
  | .finite negative m q =>
    let sign := if negative then "-" else ""
    if m = 0 then sign ++ (if format.wholeFraction then "0.0" else "0")
    else
      let (d, k) := shortest format.tie m q
      let digits := toString d
      let point := digits.length + k
      let positional := match format.positional with
        | none => true
        | some (lowest, highest) => lowest < point && point ≤ highest
      sign ++ (if positional then format.place digits point else format.scientific digits point)

/-- A double with `places` digits after the point, rounded from its exact
value, a half to the even neighbour. -/
def fixed (places : Nat) (x : Float) : String :=
  match Double.ofFloat x with
  | .notANumber => "NaN"
  | .infinite negative => if negative then "-inf" else "inf"
  | .finite negative m q =>
    let (num, den) := Double.ratio m q
    let scaled := roundHalfEven (num * Nat.pow 10 places) den
    let whole := toString (scaled / Nat.pow 10 places)
    let fraction := toString (scaled % Nat.pow 10 places)
    (if negative then "-" else "") ++ whole ++
      (if places = 0 then "" else "." ++ zeros (places - fraction.length) ++ fraction)

end PageWalk.Decimal
