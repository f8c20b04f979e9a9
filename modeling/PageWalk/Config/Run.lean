/-
PageWalk/Config/Run.lean

Run configurations.  A run is configured by a config file and by overrides
that win over it, and checked as a whole before any trace is read: the
preset must exist, the suffix must be one of the preset's and not empty,
and the period must be one.
-/
import PageWalk.Config.File
import PageWalk.Config.Period

namespace PageWalk

/-- Settings that win over those of a config file. -/
structure Overrides where
  design : Option Design := none
  preset : Option String := none
  suffix : Option String := none
  strict : Bool := false
  memoryCost : Option Count := none
deriving DecidableEq

/-- The configuration of a run. -/
structure RunConfig where
  design : Design
  preset : String
  costs : Costs
  overheads : Overheads
  /-- What the names of logs end in. -/
  suffix : String
  strict : Bool
  /-- The extensions of files that are no logs. -/
  excludeExtensions : List String
  /-- How often the state of a reduction is told. -/
  debugOutputPeriod : Period
deriving DecidableEq

namespace RunConfig

/-- The extensions of files that are never logs. -/
def defaultExtensions : List String := ["png", "jpg", "jpeg", "svg", "pdf", "csv", "json"]

/-- The seconds between two tellings. -/
def defaultPeriod : Float := 1.0

/-- The suffix of the logs: one that was asked for, else the preset's
first. -/
def chooseSuffix (preset : Preset) (asked : Option String) : Except Cause String :=
  match asked with
  | some suffix => .ok suffix
  | none => match preset.suffixes with
    | suffix :: _ => .ok suffix
    | [] => .error (.noSuffixes preset.name)

/-- A suffix that logs of a preset can have. -/
def checkSuffix (preset : Preset) (suffix : String) : Except Cause Unit :=
  if suffix.isEmpty then .error .emptySuffix
  else if preset.suffixes.contains suffix then .ok ()
  else .error (.incompatibleSuffix suffix preset.name preset.suffixes)

/-- The costs of a preset, with another cost of main memory if one was
asked for. -/
def chooseCosts (preset : Preset) : Option Count → Costs
  | some memory => preset.costs.withMemory memory
  | none => preset.costs

/-- The configuration of a run. -/
def resolve (file : ConfigFile) (overrides : Overrides) : Except Cause RunConfig := do
  let presets := file.allPresets
  let name := (overrides.preset <|> file.preset).getD file.firstPreset.name
  let preset ← match Preset.find? name presets with
    | some preset => .ok preset
    | none => .error (.unknownPreset name (presets.map (·.name)))
  let suffix ← chooseSuffix preset (overrides.suffix <|> file.suffix)
  checkSuffix preset suffix
  let seconds := file.debugOutputPeriod.getD defaultPeriod
  let period ← match Period.ofSeconds? seconds with
    | some period => .ok period
    | none => .error (.invalidPeriod seconds)
  return {
    design := (overrides.design <|> file.design).getD .radix
    preset := preset.name
    costs := chooseCosts preset (overrides.memoryCost <|> file.memoryCost)
    overheads := preset.overheads
    suffix
    strict := overrides.strict || file.strict.getD false
    excludeExtensions := file.excludeExtensions.getD defaultExtensions
    debugOutputPeriod := period }

end RunConfig

end PageWalk
