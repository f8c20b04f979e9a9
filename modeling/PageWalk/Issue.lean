/-
PageWalk/Issue.lean

What can be wrong in a record without making it unreadable: a label that
names no level, and a number that is none.
-/
import PageWalk.Text.Quoted

namespace PageWalk

/-- The numeric fields of a record. -/
inductive Field where
  | frequency
  | way
deriving DecidableEq

/-- The name of a field. -/
def Field.name : Field → String
  | frequency => "frequency"
  | way => "way"

/-- A defect of a record that leaves it readable.  Labels and values are
kept as they stand in the log. -/
inductive Issue where
  | unknownLabel (position : Nat) (label : String)
  | malformedField (field : Field) (value : String)
deriving DecidableEq

/-- The wording of an issue. -/
def Issue.message : Issue → String
  | unknownLabel position label =>
    "Unknown label " ++ Text.quote label ++ " at probe " ++ toString position
  | malformedField field value =>
    "Malformed " ++ field.name ++ " field " ++ Text.quote value

end PageWalk
