/-
PageWalk/Config/Period.lean

Periods of time, in whole nanoseconds.  A number of seconds is rounded to
the nearest, a half to the even one; it must not be negative and must stay
below `2 ^ 64` seconds.
-/
import PageWalk.Decimal.Double

namespace PageWalk

/-- A period of time. -/
structure Period where
  nanoseconds : Nat
deriving DecidableEq

namespace Period

/-- The nanoseconds of a second. -/
def perSecond : Nat := 1000000000

/-- The whole seconds of a period. -/
def seconds (p : Period) : Nat := p.nanoseconds / perSecond

/-- What a period has beyond its whole seconds, in nanoseconds. -/
def subsecond (p : Period) : Nat := p.nanoseconds % perSecond

/-- The period of a number of seconds, if there is one. -/
def ofSeconds? (x : Float) : Option Period :=
  match Double.ofFloat x with
  | .finite negative m q =>
    let (num, den) := Double.ratio m q
    if (negative && m != 0) || Nat.pow 2 64 * den ≤ num then none
    else some ⟨Decimal.roundHalfEven (num * perSecond) den⟩
  | _ => none

end Period

end PageWalk
