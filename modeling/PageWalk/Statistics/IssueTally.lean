/-
PageWalk/Statistics/IssueTally.lean

How many issues of each kind were passed over.
-/
import PageWalk.Costs

namespace PageWalk

/-- The numbers of issues. -/
structure IssueTally where
  unknownLabels : Count
  malformedFields : Count
deriving DecidableEq

namespace IssueTally

/-- No issues. -/
def empty : IssueTally := ⟨0, 0⟩

instance : Inhabited IssueTally := ⟨empty⟩

/-- The tally with one more issue. -/
def register (t : IssueTally) : Issue → Except Cause IssueTally
  | .unknownLabel .. => do return { t with unknownLabels := ← t.unknownLabels.plus .one }
  | .malformedField .. => do return { t with malformedFields := ← t.malformedFields.plus .one }

/-- The tally of the issues of both. -/
def add (s t : IssueTally) : Except Cause IssueTally := do
  let unknownLabels ← s.unknownLabels.plus t.unknownLabels
  let malformedFields ← s.malformedFields.plus t.malformedFields
  return ⟨unknownLabels, malformedFields⟩

/-- The number of issues. -/
def total (t : IssueTally) : Except Cause Count := t.unknownLabels.plus t.malformedFields

/-- Whether there are no issues. -/
def isEmpty (t : IssueTally) : Except Cause Bool := do
  return (← t.total).val == 0

/-- The text of a tally. -/
def display (t : IssueTally) : String :=
  toString t.unknownLabels ++ " unknown labels, " ++ toString t.malformedFields ++
    " malformed fields"

/-- The names of the numbers in files. -/
def fieldSpecs : List Json.FieldSpec :=
  [{ name := "unknown_labels" }, { name := "malformed_fields" }]

/-- The tally that a json value gives. -/
def ofJson? (j : Json) : Option IssueTally := do
  match ← j.fields? false fieldSpecs with
  | [unknownLabels, malformedFields] =>
    return ⟨← Json.field? Json.counter? unknownLabels,
      ← Json.field? Json.counter? malformedFields⟩
  | _ => none

/-- The json value of a tally. -/
def toJson (t : IssueTally) : Json :=
  .ofMembers [("unknown_labels", .ofCounter t.unknownLabels),
    ("malformed_fields", .ofCounter t.malformedFields)]

end IssueTally

end PageWalk
