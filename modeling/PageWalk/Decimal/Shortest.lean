/-
PageWalk/Decimal/Shortest.lean

The shortest decimal that reads back as a given double.

The reals that round to a double form an interval around it, whose ends
belong to it exactly if the mantissa is even.  On the grid of multiples of
a power of ten only the two neighbours of the double can be the nearest
point of the interval, so the coarsest grid on which one of them lies in
the interval gives the fewest digits, and the nearer of the two the best
of these.
-/
import PageWalk.Decimal.Double

namespace PageWalk.Decimal

/-- Which of two decimals at the same distance is taken. -/
inductive Tie where
  | toEven
  | up
deriving DecidableEq

/-- A positive double with the two ends of its interval, over one
denominator. -/
structure Interval where
  lower : Nat
  value : Nat
  upper : Nat
  denominator : Nat
  closed : Bool

namespace Interval

/-- The interval of `m * 2 ^ q`.  Below a power of two doubles are twice as
dense, so there the lower end is half as far. -/
def ofParts (m : Nat) (q : Int) : Interval :=
  let narrow := m = Nat.pow 2 52 ∧ q > -1074
  let scale := (Double.ratio 1 (q - 2)).1
  { lower := (if narrow then 4 * m - 1 else 4 * m - 2) * scale
    value := 4 * m * scale
    upper := (4 * m + 2) * scale
    denominator := (Double.ratio 1 (q - 2)).2
    closed := m % 2 == 0 }

/-- The interval in units of `10 ^ k`. -/
def inUnits (i : Interval) (k : Int) : Interval :=
  if 0 ≤ k then { i with denominator := i.denominator * Nat.pow 10 k.toNat }
  else
    let s := Nat.pow 10 (-k).toNat
    { i with lower := i.lower * s, value := i.value * s, upper := i.upper * s }

/-- Whether the whole number `n` lies in the interval. -/
def holds (i : Interval) (n : Nat) : Bool :=
  let x := n * i.denominator
  if i.closed then i.lower ≤ x && x ≤ i.upper else i.lower < x && x < i.upper

/-- The whole number of the interval that is nearest to its value, if it
holds any. -/
def nearest? (i : Interval) (tie : Tie) : Option Nat :=
  let below := i.value / i.denominator
  let above := below + 1
  match i.holds below, i.holds above with
  | true, true =>
    let twice := 2 * (i.value % i.denominator)
    if twice < i.denominator then some below
    else if i.denominator < twice then some above
    else some (if tie = .toEven && below % 2 == 0 then below else above)
  | true, false => some below
  | false, true => some above
  | false, false => none

/-- The power of ten that the value reaches: `10 ^ e ≤ value < 10 ^ (e + 1)`. -/
def magnitude (i : Interval) : Int :=
  if i.denominator ≤ i.value then
    ((Nat.toDigits 10 (i.value / i.denominator)).length : Int) - 1
  else -((Nat.toDigits 10 (i.denominator / i.value)).length : Int)

end Interval

/-- The shortest decimal `d * 10 ^ k` that reads back as the positive
double `m * 2 ^ q`, as `(d, k)`.  Seventeen digits are always enough. -/
def shortest (tie : Tie) (m : Nat) (q : Int) : Nat × Int :=
  let i := Interval.ofParts m q
  let top := i.magnitude + 1
  let hit := (List.range 19).findSome? fun (n : Nat) =>
    let k := top - (n : Int)
    ((i.inUnits k).nearest? tie).map fun d => (d, k)
  hit.getD (0, 0)

end PageWalk.Decimal
