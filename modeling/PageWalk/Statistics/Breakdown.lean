/-
PageWalk/Statistics/Breakdown.lean

Breakdowns: at which levels the requests were resolved, for each position
of a probe in its walk.  Positions are depths of the page table, so they
are kept apart.
-/
import PageWalk.Costs
import PageWalk.Decimal.Style
import PageWalk.SortedMap

namespace PageWalk

/-- The most probes that a walk may have to be broken down. -/
def maxProbes : Nat := 4

/-- The number of requests at each level, for each position. -/
structure Breakdown where
  positions : List (SortedMap Level Count)

namespace Breakdown

/-- The breakdown of no requests. -/
def empty : Breakdown := ⟨List.replicate maxProbes .empty⟩

instance : Inhabited Breakdown := ⟨empty⟩

/-- The number of requests resolved at a level at a position. -/
def frequency (b : Breakdown) (position : Nat) (level : Level) : Count :=
  ((b.positions[position]?).bind (·.get? level)).getD 0

/-- How many probes a walk has that goes on to a position at least. -/
def probesTo (position : Nat) : Except Cause Count :=
  match Counter.ofNat? (position + 1) with
  | some probes => .ok probes
  | none => .error .sumOverflow

/-- The breakdown with `frequency` more requests resolved at `level` at
`position`.  A position beyond the walk is refused even if nothing is
added. -/
def register (b : Breakdown) (position : Nat) (level : Level) (frequency : Count) :
    Except Cause Breakdown := do
  let probes ← probesTo position
  match b.positions[position]? with
  | none => .error (.probeOverflow probes.val maxProbes)
  | some levels =>
    if frequency.val = 0 then .ok b
    else do
      let sum ← ((levels.get? level).getD 0).plus frequency
      return ⟨b.positions.set position (levels.insert level sum)⟩

/-- The share of `part` in `whole`, in percent. -/
def percentage (part whole : Count) : Float :=
  100.0 * Float.ofNat part.val / Float.ofNat whole.val

/-- The line of one position: each level with its requests and its share. -/
def displayPosition (position : Nat) (levels : SortedMap Level Count) : Except Cause String := do
  let whole ← Counter.sum levels.values
  let parts := levels.entries.map fun (level, n) =>
    " " ++ level.label ++ "=" ++ toString n ++ " (" ++
      Decimal.fixed 2 (percentage n whole) ++ "%)"
  return "probe " ++ toString position ++ ":" ++ String.join parts ++ "\n"

/-- The text of a breakdown, one line for each position. -/
def display (b : Breakdown) : Except Cause String := do
  let lines ← b.positions.zipIdx.mapM fun (levels, position) => displayPosition position levels
  return String.join lines

/-- The levels of one position that a json value gives. -/
def positionOfJson? : Json → Option (SortedMap Level Count)
  | .object members => do
    let entries ← members.mapM fun (key, j) => do
      let label ← Json.spelledText? key
      return (← Level.ofLabel? label, ← Json.counter? j)
    return .ofList entries
  | _ => none

/-- The breakdown that a json value gives.  It may have any number of
positions. -/
def ofJson? (j : Json) : Option Breakdown := (j.list? positionOfJson?).map Breakdown.mk

/-- The json value of a breakdown: an array of objects from labels to
requests. -/
def toJson (b : Breakdown) : Json :=
  .array (b.positions.map fun levels =>
    .ofMembers (levels.entries.map fun (level, n) => (level.label, .ofCounter n)))

end Breakdown

end PageWalk
