/-
PageWalk/Preset.lean

Presets: costs and overheads under a name, with the suffixes of the logs
they are meant for.  Two are built in; files can declare more, or others
under the same names (`merge`).
-/
import PageWalk.Costs

namespace PageWalk

/-- A named cost model. -/
structure Preset where
  name : String
  costs : Costs
  overheads : Overheads
  /-- What the names of the logs end in. -/
  suffixes : List String
deriving DecidableEq

namespace Preset

/-- The overheads of the presets that are built in. -/
def builtinOverheads : Overheads := ⟨.ofNat 2, .ofNat 4, .ofNat 4⟩

/-- What the names of logs end in, unless a preset says otherwise. -/
def logSuffix : String := "_dyna.log"

/-- Costs measured with a pointer-chasing benchmark on the machine that
collected the traces. -/
def standard : Preset where
  name := "default"
  costs := ⟨.ofNat 0, .ofNat 4, .ofNat 14, .ofNat 54, .one, .ofNat 200⟩
  overheads := builtinOverheads
  suffixes := [logSuffix]

/-- Reference costs of the cuckoo design. -/
def paper : Preset where
  name := "paper"
  costs := ⟨.ofNat 0, .ofNat 5, .ofNat 20, .ofNat 80, .one, .ofNat 200⟩
  overheads := builtinOverheads
  suffixes := [logSuffix]

/-- The presets that are built in, the one in force by default first. -/
def builtin : List Preset := [standard, paper]

/-- The presets with `p` in place of the one of its name, or at the end if
there is none. -/
def put (p : Preset) : List Preset → List Preset
  | [] => [p]
  | q :: qs => if q.name = p.name then p :: qs else q :: put p qs

/-- The presets `base` with those of `declared` put in, in their order. -/
def merge (base declared : List Preset) : List Preset :=
  declared.foldl (fun presets p => put p presets) base

theorem put_ne_nil (p : Preset) (presets : List Preset) : put p presets ≠ [] := by
  cases presets with
  | nil => exact List.cons_ne_nil _ _
  | cons q qs =>
    unfold put
    split <;> exact List.cons_ne_nil _ _

theorem merge_ne_nil {base : List Preset} (h : base ≠ []) (declared : List Preset) :
    merge base declared ≠ [] := by
  induction declared generalizing base with
  | nil => exact h
  | cons p declared ih => exact ih (put_ne_nil p base)

/-- The first preset with a name. -/
def find? (name : String) (presets : List Preset) : Option Preset :=
  presets.find? (·.name == name)

/-- The names of the parts of a preset in files. -/
def fieldSpecs : List Json.FieldSpec :=
  [{ name := "name" }, { name := "costs" }, { name := "overheads" }, { name := "suffixes" }]

/-- The preset that a json value gives. -/
def ofJson? (j : Json) : Option Preset := do
  match ← j.fields? true fieldSpecs with
  | [name, costs, overheads, suffixes] =>
    return ⟨← Json.field? Json.text? name, ← Json.field? Costs.ofJson? costs,
      ← Json.field? Overheads.ofJson? overheads,
      ← Json.field? (Json.list? Json.text?) suffixes⟩
  | _ => none

/-- The json value of a preset. -/
def toJson (p : Preset) : Json :=
  .ofMembers [("name", .ofText p.name), ("costs", p.costs.toJson),
    ("overheads", p.overheads.toJson), ("suffixes", .array (p.suffixes.map .ofText))]

end Preset

end PageWalk
