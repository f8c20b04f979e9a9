/-
PageWalk/CommandLine/Arguments.lean

What the program can be asked to do, and how it is asked.
-/
import PageWalk.CommandLine.Options
import PageWalk.Config.Run
import PageWalk.Summary

namespace PageWalk.CommandLine

/-- Where logs are taken from. -/
inductive Source where
  /-- Every log in a directory. -/
  | directory (path : Path)
  | file (path : Path)
deriving DecidableEq

/-- Reduce logs to a latency table. -/
structure Latency where
  source : Source
  config : Option Path
  overrides : Overrides
  /-- Only list the logs. -/
  dryRun : Bool
  /-- Where the table is written. -/
  output : Option Path
  /-- Where reports and copies of the logs are saved. -/
  results : Option Path
deriving DecidableEq

/-- The tables of a design. -/
structure Side where
  access : Path
  latency : Path
  design : Design
deriving DecidableEq

/-- Compare two designs. -/
structure Compare where
  baseline : Side
  candidate : Side
  metric : Metric
  /-- Where the comparison is written. -/
  output : Option Path
deriving DecidableEq

/-- What the program does. -/
inductive Command where
  | latency (command : Latency)
  | compare (command : Compare)
  /-- List all presets. -/
  | presets (config : Option Path)
deriving DecidableEq

/-- What the program is asked. -/
structure Arguments where
  /-- Where events are told. -/
  journal : Option Path
  /-- Whether what the file holds already is kept. -/
  keepJournal : Bool
  command : Command
deriving DecidableEq

/-- How the program is called. -/
def usage : String :=
  String.join (List.map (· ++ "\n")
    ["Usage: pagewalk [--log-file FILE] [--log-file-append] COMMAND", "", "Commands:",
      "  latency (--dir DIR | --file FILE) [--config FILE] [--design DESIGN]",
      "          [--preset PRESET] [--suffix SUFFIX] [--memory-cost CYCLES] [--strict]",
      "          [--dry-run] [--output FILE] [--results-dir DIR]",
      "  compare --baseline-access FILE --baseline-latency FILE [--baseline-design DESIGN]",
      "          --candidate-access FILE --candidate-latency FILE [--candidate-design DESIGN]",
      "          [--ecpt-metric METRIC] [--output FILE]",
      "  presets [--config FILE]"])

/-! ### Commands -/

/-- The options of `latency`. -/
def latencyOptions : List OptionSpec :=
  [{ name := "dir" }, { name := "file" }, { name := "config" }, { name := "design" },
    { name := "preset" }, { name := "suffix" }, { name := "memory-cost" },
    { name := "strict", hasValue := false }, { name := "dry-run", hasValue := false },
    { name := "output" }, { name := "results-dir" }]

/-- The reduction that some options ask for. -/
def Latency.ofOptions? (options : Options) : Option Latency := do
  let source ← match ← options.path? "dir", ← options.path? "file" with
    | some directory, none => some (.directory directory)
    | none, some file => some (.file file)
    | _, _ => none
  return {
    source
    config := ← options.path? "config"
    overrides := {
      design := ← options.read? "design" Design.ofName?
      preset := options.value? "preset"
      suffix := options.value? "suffix"
      strict := options.has "strict"
      memoryCost := ← options.read? "memory-cost" fun value => Counter.parse? value.toList }
    dryRun := options.has "dry-run"
    output := ← options.path? "output"
    results := ← options.path? "results-dir" }

/-- The options of `compare`. -/
def compareOptions : List OptionSpec :=
  ["baseline-access", "baseline-latency", "baseline-design", "candidate-access",
    "candidate-latency", "candidate-design", "ecpt-metric", "output"].map fun name => { name }

/-- The tables of the side `name`. -/
def Side.ofOptions? (options : Options) (name : String) (design : Design) : Option Side := do
  return {
    access := ← ← options.path? (name ++ "-access")
    latency := ← ← options.path? (name ++ "-latency")
    design := (← options.read? (name ++ "-design") Design.ofName?).getD design }

/-- The comparison that some options ask for. -/
def Compare.ofOptions? (options : Options) : Option Compare := do
  return {
    baseline := ← Side.ofOptions? options "baseline" .radix
    candidate := ← Side.ofOptions? options "candidate" .ecpt
    metric := (← options.read? "ecpt-metric" Metric.ofName?).getD default
    output := ← options.path? "output" }

/-- The options of a command.  Nothing but a double dash can follow them. -/
def commandOptions? (known : List OptionSpec) (args : List String) : Option Options := do
  let (options, rest) ← scanOnce known args
  if rest = [] ∨ rest = ["--"] then return options else none

/-- The command that some arguments ask for. -/
def Command.ofArgs? : List String → Option Command
  | "latency" :: args => do
    return .latency (← Latency.ofOptions? (← commandOptions? latencyOptions args))
  | "compare" :: args => do
    return .compare (← Compare.ofOptions? (← commandOptions? compareOptions args))
  | "presets" :: args => do
    return .presets (← (← commandOptions? [{ name := "config" }] args).path? "config")
  | _ => none

/-- What the program is asked by some arguments; `none` if it is not called
as it should be. -/
def Arguments.ofArgs? (args : List String) : Option Arguments := do
  let known := [{ name := "log-file" }, { name := "log-file-append", hasValue := false }]
  let (options, rest) ← scanOnce known args
  return {
    journal := ← options.path? "log-file"
    keepJournal := options.has "log-file-append"
    command := ← Command.ofArgs? rest }

end PageWalk.CommandLine
