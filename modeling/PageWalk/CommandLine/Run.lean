/-
PageWalk/CommandLine/Run.lean

Doing what the program is asked.  Output goes to standard output until
something goes wrong; the error then goes to standard error.
-/
import PageWalk.Aggregation
import PageWalk.CommandLine.Arguments
import PageWalk.Comparison.Display
import PageWalk.LatencyTable.Display

namespace PageWalk.CommandLine

/-- What is printed and told while a command runs. -/
structure Said where
  printed : String := ""
  events : List Event := []

/-- Steps of a command. -/
abbrev Action (m : Type → Type) := ExceptT Error (StateT Said m)

variable {m : Type → Type} [Monad m]

/-- Print a text. -/
def print (text : String) : Action m Unit :=
  modify fun s => { s with printed := s.printed ++ text }

/-- Tell some events. -/
def tell (events : List Event) : Action m Unit :=
  modify fun s => { s with events := s.events ++ events }

/-- Go on with a result, unless it is an error. -/
def check {α : Type} (result : m (Except Error α)) : Action m α :=
  ExceptT.mk (StateT.lift result)

/-- The same, with what is told meanwhile. -/
def checkTold {α : Type} (result : m (Except Error α × List Event)) : Action m α := do
  let (result, events) ← (result : m _)
  tell events
  check (return result)

/-- Go on with a result, unless there is a cause not to. -/
def expect {α : Type} : Except Cause α → Action m α
  | .ok x => return x
  | .error c => throw { cause := c }

/-- Steps that belong to an attempt. -/
def during {α : Type} (a : Attempt) (steps : Action m α) : Action m α :=
  ExceptT.mk (attempting a <$> steps.run)

/-- Go on with the result of an attempt, unless there is a cause not to. -/
def require {α : Type} (a : Attempt) (result : Except Cause α) : Action m α :=
  during a (expect result)

variable [Files m]

/-! ### Commands -/

/-- The config file, or what holds without one. -/
def readConfig : Option Path → Action m ConfigFile
  | some path => check (ConfigFile.read path)
  | none => return {}

/-- The logs of a source. -/
def logFiles (config : RunConfig) : Source → Action m (List LogFile)
  | .directory path =>
    during .discoverLogs
      (checkTold (LogFile.discover path config.suffix config.excludeExtensions))
  | .file path => return [LogFile.ofPath config.suffix path]

/-- Make the directory for results. -/
def createResults : Option Path → Action m Unit
  | none => return
  | some path => do
    match ← (Files.makeDirectories path : m _) with
    | .error e => throw { cause := .file e, attempts := [.createResults path] }
    | .ok () => return

/-- Reduce logs. -/
def Latency.reduce (a : Latency) (config : RunConfig) (files : List LogFile) : Action m Unit := do
  tell [.reducingLogs files.length]
  createResults a.results
  let output ← during .reduceFiles (checkTold (Aggregation.run config a.results files))
  print (← expect output.table.display)
  match a.output with
  | none => return
  | some path =>
    check (output.table.write path)
    tell [.wroteTable]

/-- Reduce logs, or list them.  The configuration is settled before any log
is touched. -/
def Latency.run (a : Latency) : Action m Unit := do
  let config ← require .configure (RunConfig.resolve (← readConfig a.config) a.overrides)
  let files ← logFiles config a.source
  if files.isEmpty then tell [.noLogs]
  else if a.dryRun then
    print (String.join (files.map fun file => file.benchmark ++ ": " ++ file.path.display ++ "\n"))
  else a.reduce config files

/-- The instructions per cycle of a side. -/
def Side.ipcTable (side : Side) (metric : Metric) : Action m IpcTable := do
  let access ← check (AccessTable.read side.access)
  let latencies ← check (LatencyTable.read side.latency side.design)
  tell (latencies.skipped metric)
  require (.joinFiles side.access side.latency) (IpcTable.of access latencies metric)

/-- Compare two designs. -/
def Compare.run (a : Compare) : Action m Unit := do
  let baseline ← during .baselineIpc (a.baseline.ipcTable a.metric)
  let candidate ← during .candidateIpc (a.candidate.ipcTable a.metric)
  let comparison ← require .compareDesigns (Comparison.of baseline candidate)
  print (← expect comparison.display)
  match a.output with
  | none => return
  | some path =>
    check (comparison.write path)
    tell [.wroteComparison]

/-- A preset on one line. -/
def presetLine (p : Preset) : String :=
  p.name ++ ": " ++
    Text.commaList (Level.all.map fun level => level.label ++ " " ++ toString (p.costs.cost level)) ++
    " | hash " ++ toString p.overheads.hash ++ ", pud_cwc " ++ toString p.overheads.pudCwc ++
    ", pmd_cwc " ++ toString p.overheads.pmdCwc ++
    " | suffixes: " ++ Text.commaList p.suffixes ++ "\n"

/-- Run a command. -/
def Command.run : Command → Action m Unit
  | .latency a => a.run
  | .compare a => a.run
  | .presets config => do
    print (String.join ((← readConfig config).allPresets.map presetLine))

/-! ### The whole program -/

/-- What a call of the program comes to. -/
structure Outcome where
  exit : Nat
  stdout : String
  stderr : String
deriving DecidableEq

/-- Start a journal.  That it cannot be written is no reason not to run. -/
def startJournal (a : Arguments) (text : String) : m Unit :=
  match a.journal with
  | none => return
  | some path => do
    let bytes := Utf8.encode text.toList
    let _ ← if a.keepJournal then Files.append path bytes else Files.write path bytes

/-- Go on with a journal. -/
def continueJournal (a : Arguments) (text : String) : m Unit :=
  match a.journal with
  | none => return
  | some path => do
    let _ ← Files.append path (Utf8.encode text.toList)

/-- The exit code of an error. -/
def exitCode (e : Error) : Nat := if e.cause.isUnforeseen then 101 else 1

/-- Do what the program is asked. -/
def run (args : List String) : m Outcome :=
  match Arguments.ofArgs? args with
  | none => return { exit := 2, stdout := "", stderr := usage }
  | some a => do
    startJournal a (Event.started args).line
    let (result, said) ← StateT.run (ExceptT.run a.command.run) {}
    continueJournal a (String.join (said.events.map Event.line))
    return match result with
      | .ok () => { exit := 0, stdout := said.printed, stderr := "" }
      | .error e =>
        { exit := exitCode e, stdout := said.printed, stderr := "Error: " ++ e.report ++ "\n" }

end PageWalk.CommandLine
