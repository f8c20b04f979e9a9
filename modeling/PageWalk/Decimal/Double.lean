/-
PageWalk/Decimal/Double.lean

A double taken apart.  Every finite double is a whole number times a power
of two, and all the decimal work of this folder is done on these two in
exact arithmetic; the doubles themselves are only ever computed with.
-/
namespace PageWalk

/-- What a double stands for.  A finite one is `mantissa * 2 ^ exponent`
with its sign; the sign of zero is kept. -/
inductive Double where
  | notANumber
  | infinite (negative : Bool)
  | finite (negative : Bool) (mantissa : Nat) (exponent : Int)
deriving DecidableEq

namespace Double

/-- The parts of a double, from its 1 sign bit, 11 exponent bits and 52
fraction bits. -/
def ofFloat (x : Float) : Double :=
  let bits : Nat := x.toBits.toNat
  let negative := bits / Nat.pow 2 63 = 1
  let exponent : Nat := bits / Nat.pow 2 52 % Nat.pow 2 11
  let fraction : Nat := bits % Nat.pow 2 52
  if exponent = Nat.pow 2 11 - 1 then
    if fraction = 0 then .infinite negative else .notANumber
  else if exponent = 0 then .finite negative fraction (-1074)
  else .finite negative (Nat.pow 2 52 + fraction) (exponent - 1075)

/-- The quotient that `m * 2 ^ q` is, as numerator and denominator. -/
def ratio (m : Nat) (q : Int) : Nat × Nat :=
  if 0 ≤ q then (m * Nat.pow 2 q.toNat, 1) else (m, Nat.pow 2 (-q).toNat)

end Double

namespace Decimal

/-- The whole number nearest to `num / den`, of two the even one. -/
def roundHalfEven (num den : Nat) : Nat :=
  let whole := num / den
  let twice := 2 * (num % den)
  if twice < den || (twice == den && whole % 2 == 0) then whole else whole + 1

end Decimal

end PageWalk
