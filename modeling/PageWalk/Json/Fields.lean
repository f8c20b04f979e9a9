/-
PageWalk/Json/Fields.lean

Reading json values as structures.  A structure is an object with one
member per field, in any order, or an array of its fields in order.
`fields?` finds the fields; the readers of this folder's users interpret
them.

An object may lack a field that is optional; an array may only end early
before fields that have defaults.  A doubled field is an error, a member
that names no field is one where the structure is `closed`.
-/
import PageWalk.Json.Value

namespace PageWalk.Json

/-- What may be missing from a structure. -/
inductive Presence where
  | required
  /-- May be missing from an object. -/
  | optional
  /-- May be missing from an object or the end of an array. -/
  | default
deriving DecidableEq

/-- A field of a structure. -/
structure FieldSpec where
  name : String
  presence : Presence := .required

/-- The members of an object with the text of their keys; `none` if a key
spells no text. -/
def namedMembers? (members : List (Bytes × Json)) : Option (List (String × Json)) :=
  members.mapM fun (key, j) => (spelledText? key).map fun name => (name, j)

/-- The value of a field among the members; `none` if it is doubled, or
missing and required. -/
def member? (members : List (String × Json)) (field : FieldSpec) : Option (Option Json) :=
  match members.filter (·.1 == field.name) with
  | [] => if field.presence = .required then none else some none
  | [(_, j)] => some (some j)
  | _ => none

/-- The values of the fields of a structure, in the order of `fields`. -/
def fields? (closed : Bool) (fields : List FieldSpec) : Json → Option (List (Option Json))
  | object members => do
    let members ← namedMembers? members
    if closed && members.any (fun (name, _) => fields.all (·.name != name)) then none
    else fields.mapM (member? members)
  | array items =>
    if fields.length < items.length then none
    else if (fields.drop items.length).any (·.presence != .default) then none
    else some (items.map some ++ List.replicate (fields.length - items.length) none)
  | _ => none

/-- The value of a field that is present, by `read`. -/
def field? {α : Type} (read : Json → Option α) : Option Json → Option α
  | some j => read j
  | none => none

/-- The value of a field that may be missing or null. -/
def optional? {α : Type} (read : Json → Option α) : Option Json → Option (Option α)
  | none => some none
  | some null => some none
  | some j => (read j).map some

/-- The items of an array, each by `read`. -/
def list? {α : Type} (read : Json → Option α) : Json → Option (List α)
  | array items => items.mapM read
  | _ => none

/-- The truth value of a value. -/
def bool? : Json → Option Bool
  | bool b => some b
  | _ => none

/-- The name of an alternative without contents: its name alone, or an
object that gives it null. -/
def alternative? : Json → Option String
  | string spelling => spelledText? spelling
  | object [(key, null)] => spelledText? key
  | _ => none

/-- The name and the contents of an alternative. -/
def tagged? : Json → Option (String × Json)
  | object [(key, j)] => (spelledText? key).map fun name => (name, j)
  | _ => none

/-- An object from names and values. -/
def ofMembers (members : List (String × Json)) : Json :=
  object (members.map fun (name, j) => (spell name, j))

/-- A value that may be missing. -/
def ofOption {α : Type} (write : α → Json) : Option α → Json
  | some a => write a
  | none => null

end PageWalk.Json
