/-
PageWalk/Config/File.lean

Config files: settings for runs and presets for all, in json.  Every
setting may be missing; none may be unknown.
-/
import PageWalk.Files.Basic
import PageWalk.Json.Reader
import PageWalk.Preset

namespace PageWalk

/-- What a config file says. -/
structure ConfigFile where
  design : Option Design := none
  preset : Option String := none
  suffix : Option String := none
  strict : Option Bool := none
  memoryCost : Option Count := none
  excludeExtensions : Option (List String) := none
  debugOutputPeriod : Option Float := none
  presets : List Preset := []
deriving DecidableEq

namespace ConfigFile

/-- The names of the settings. -/
def fieldSpecs : List Json.FieldSpec :=
  ["design", "preset", "suffix", "strict", "memory_cost", "exclude_extensions",
    "debug_output_period_secs", "presets"].map fun name => { name, presence := .default }

/-- The settings that a json value gives. -/
def ofJson? (j : Json) : Option ConfigFile := do
  match ← j.fields? true fieldSpecs with
  | [design, preset, suffix, strict, memoryCost, excludeExtensions, period, presets] =>
    return {
      design := ← Json.optional? (fun j => j.alternative?.bind Design.ofName?) design
      preset := ← Json.optional? Json.text? preset
      suffix := ← Json.optional? Json.text? suffix
      strict := ← Json.optional? Json.bool? strict
      memoryCost := ← Json.optional? Json.counter? memoryCost
      excludeExtensions := ← Json.optional? (Json.list? Json.text?) excludeExtensions
      debugOutputPeriod := ← Json.optional? Json.float? period
      presets := ← match presets with
        | none => some []
        | some j => j.list? Preset.ofJson? }
  | _ => none

/-- All presets: those that are built in, with those of the file put in. -/
def allPresets (c : ConfigFile) : List Preset := Preset.merge Preset.builtin c.presets

theorem allPresets_ne_nil (c : ConfigFile) : c.allPresets ≠ [] :=
  Preset.merge_ne_nil (List.cons_ne_nil _ _) c.presets

/-- The preset that is meant where none is asked for. -/
def firstPreset (c : ConfigFile) : Preset := c.allPresets.head c.allPresets_ne_nil

variable {m : Type → Type} [Monad m] [Files m]

/-- Read a config file. -/
def read (path : Path) : m (Except Error ConfigFile) := do
  match ← Files.openFile path with
  | .error e => return .error { cause := .file e, attempts := [.openConfig path] }
  | .ok opened =>
    return match opened.read with
      | .error e => .error { cause := .file e, attempts := [.parseConfig path] }
      | .ok text => match (Json.parse? text).bind ofJson? with
        | some c => .ok c
        | none => .error { cause := .json, attempts := [.parseConfig path] }

end ConfigFile

end PageWalk
