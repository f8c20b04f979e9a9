/-
PageWalk/Comparison/Spread.lean

The mean of samples and its standard error, in one pass: each sample moves
the mean by its share of the distance to it.
-/
namespace PageWalk

/-- What is known of the samples so far. -/
structure Spread where
  count : Nat
  mean : Float
  /-- The sum of the squared distances to the mean. -/
  squares : Float
deriving DecidableEq

namespace Spread

/-- No samples. -/
def empty : Spread := ⟨0, 0.0, 0.0⟩

/-- One more sample. -/
def add (s : Spread) (x : Float) : Spread :=
  let n := Float.ofNat (s.count + 1)
  let step := (x - s.mean) / n
  { count := s.count + 1
    mean := s.mean + step
    squares := s.squares + step * step * n * (n - 1.0) }

/-- The spread of some samples. -/
def ofList (xs : List Float) : Spread := xs.foldl add empty

/-- The standard error of the mean; zero for fewer than two samples. -/
def error (s : Spread) : Float :=
  if s.count < 2 then 0.0
  else (s.squares / Float.ofNat (s.count - 1) / Float.ofNat s.count).sqrt

end Spread

end PageWalk
