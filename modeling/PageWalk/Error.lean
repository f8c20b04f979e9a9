/-
PageWalk/Error.lean

What can go wrong, and how it is told.  An error has one *cause* and the
*attempts* that it ended, innermost first.  All wording is in
`Cause.message` and `Attempt.message`.
-/
import PageWalk.Counter
import PageWalk.Decimal.Style
import PageWalk.Design
import PageWalk.Issue
import PageWalk.Path
import PageWalk.Text.Layout

namespace PageWalk

/-! ### Causes -/

/-- What the file system refuses. -/
inductive FileError where
  | notFound
  | alreadyExists
  | notDirectory
  | isDirectory
  /-- A path, or a step of it, has too many bytes. -/
  | nameTooLong
  /-- A path has a zero byte, which would end it early. -/
  | zeroInName
  /-- The bytes that were read spell no text. -/
  | notText
  /-- Any other refusal, in the system's words. -/
  | other (text : String)
deriving DecidableEq

/-- The wording of a refusal. -/
def FileError.message : FileError → String
  | notFound => "No such file or directory (os error 2)"
  | alreadyExists => "File exists (os error 17)"
  | notDirectory => "Not a directory (os error 20)"
  | isDirectory => "Is a directory (os error 21)"
  | nameTooLong => "File name too long (os error 36)"
  | zeroInName => "file name contained an unexpected NUL byte"
  | notText => "stream did not contain valid UTF-8"
  | other text => text

/-- What makes a row of a csv text unreadable. -/
inductive RowError where
  /-- The bytes of the row spell no text. -/
  | notText
  /-- The row has another number of fields than the first one. -/
  | unequalLengths
  /-- A column is missing or doubled, or a field holds no such value. -/
  | badField
deriving DecidableEq

/-- What went wrong. -/
inductive Cause where
  | unknownLevel (label : String)
  | issue (issue : Issue)
  | wayOutOfRange (way probes : Nat)
  | probeOverflow (probes limit : Nat)
  | missingWay
  | requestOverflow (total frequency : Count)
  | unknownPreset (name : String) (available : List String)
  | noSuffixes (preset : String)
  | emptySuffix
  | incompatibleSuffix (suffix preset : String) (compatible : List String)
  | invalidPeriod (seconds : Float)
  | keyMismatch (onlyLeft onlyRight : List String)
  | duplicateBenchmark (benchmark : String)
  /-- A table has a row of the other design. -/
  | foreignSummary (benchmark : String) (table : Design)
  | noBenchmarks
  /-- A counter cannot hold the sum. -/
  | sumOverflow
  /-- A text has a wider column than can be laid out. -/
  | columnTooWide
  /-- A log has fewer lines than were counted before. -/
  | endedBeforeMarker (line : Nat)
  | file (error : FileError)
  | row (error : RowError)
  | json
  /-- A path that spells no text cannot be written as json. -/
  | pathNotText
deriving DecidableEq

/-- Seconds are told without an exponent and without a needless point. -/
def secondsStyle : Decimal.Style where
  tie := .up
  positional := none
  wholeFraction := false
  exponentSign := ""
  notANumber := "NaN"
  infinity := "inf"
  negativeInfinity := "-inf"

/-- The wording of a cause; `none` where the format of a text is at fault,
which is told by its kind alone. -/
def Cause.message? : Cause → Option String
  | unknownLevel label => some ("Unknown level label " ++ Text.quote label)
  | issue i => some i.message
  | wayOutOfRange way probes =>
    some ("Way " ++ toString way ++ " is out of range for a walk with " ++ toString probes ++
      " probes")
  | probeOverflow probes limit =>
    some ("Walk has " ++ toString probes ++ " probes, but at most " ++ toString limit ++
      " are supported")
  | missingWay => some "Record has no way"
  | requestOverflow total frequency =>
    some ("Adding " ++ toString frequency ++ " requests to " ++ toString total ++
      " overflows the request count")
  | unknownPreset name available =>
    some ("Unknown preset " ++ Text.quote name ++ ", available presets: " ++
      Text.commaList available)
  | noSuffixes preset => some ("Preset " ++ Text.quote preset ++ " has no trace suffixes")
  | emptySuffix => some "Trace suffix must not be empty"
  | incompatibleSuffix suffix preset compatible =>
    some ("Suffix " ++ Text.quote suffix ++ " is not compatible with preset " ++
      Text.quote preset ++ ", expected one of: " ++ Text.commaList compatible)
  | invalidPeriod seconds =>
    some ("Invalid debug output period: " ++ secondsStyle.render seconds ++ "s")
  | keyMismatch onlyLeft onlyRight =>
    some ("Benchmarks differ: only on the left: [" ++ Text.commaList onlyLeft ++
      "], only on the right: [" ++ Text.commaList onlyRight ++ "]")
  | duplicateBenchmark benchmark =>
    some ("Benchmark " ++ Text.quote benchmark ++ " appears more than once")
  | foreignSummary benchmark .radix =>
    some ("Benchmark " ++ Text.quote benchmark ++ " has an ECPT summary in a radix table")
  | foreignSummary benchmark .ecpt =>
    some ("Benchmark " ++ Text.quote benchmark ++ " has a radix summary in an ECPT table")
  | noBenchmarks => some "No benchmarks to compare"
  | sumOverflow => some "attempt to add with overflow"
  | columnTooWide => some "Formatting argument out of range"
  | endedBeforeMarker line => some ("Log ended before marker line " ++ toString line)
  | file e => some e.message
  | row _ => none
  | json => none
  | pathNotText => some "path contains invalid UTF-8 characters"

/-- Whether a cause is one that the program was not meant to meet.  It ends
everything at once, whatever was being attempted. -/
def Cause.isUnforeseen : Cause → Bool
  | sumOverflow => true
  | columnTooWide => true
  | _ => false

/-- Whether a cause ends a whole run, and not the reduction of one file
only.  Walks that are too deep for the design mean that all logs are; an
unforeseen cause leaves nothing to go on with. -/
def Cause.isFatal : Cause → Bool
  | probeOverflow .. => true
  | cause => cause.isUnforeseen

/-! ### Attempts -/

/-- What was being done when something went wrong. -/
inductive Attempt where
  | searchMarker
  | skipPreamble
  | readLine (line : Nat)
  | readNextLine
  | parseRecord (line : Nat)
  | acceptRecord (line : Nat)
  | reduceRecord (line : Nat)
  | openLog (path : Path)
  | readLog
  | reduceTrace
  | reduceFile (path : Path)
  | reduceFiles
  | readDirectory (path : Path)
  | readEntry (path : Path)
  | discoverLogs
  | createResults (path : Path)
  | copyFile (source target : Path)
  | openConfig (path : Path)
  | parseConfig (path : Path)
  | configure
  | openReport (path : Path)
  | parseReport (path : Path)
  | createReport (path : Path)
  | writeReport (path : Path)
  | openTable (path : Path)
  | readTable (path : Path)
  | createTable (path : Path)
  | writeTable (path : Path)
  | parseTableRow (design : Design)
  | openAccess (path : Path)
  | readAccess (path : Path)
  | readHeader
  | readRow
  | parseRow
  | join
  | joinFiles (access latency : Path)
  | baselineIpc
  | candidateIpc
  | compareDesigns
  | createComparison (path : Path)
  | writeComparison (path : Path)
deriving DecidableEq

/-- The wording of an attempt. -/
def Attempt.message : Attempt → String
  | searchMarker => "Unable to search for marker line"
  | skipPreamble => "Unable to skip preamble"
  | readLine line => "Unable to read line " ++ toString line
  | readNextLine => "Unable to read next line"
  | parseRecord line => "Unable to parse record at line " ++ toString line
  | acceptRecord line => "Invalid record at line " ++ toString line
  | reduceRecord line => "Unable to reduce record at line " ++ toString line
  | openLog path => "Unable to open log file " ++ path.quote
  | readLog => "Unable to read dyna log"
  | reduceTrace => "Unable to reduce trace"
  | reduceFile path => "Unable to reduce " ++ path.quote
  | reduceFiles => "Unable to reduce log files"
  | readDirectory path => "Unable to read directory " ++ path.quote
  | readEntry path => "Unable to read entry of " ++ path.quote
  | discoverLogs => "Unable to discover log files"
  | createResults path => "Unable to create results directory " ++ path.quote
  | copyFile source target => "Unable to copy " ++ source.quote ++ " to " ++ target.quote
  | openConfig path => "Unable to open config file " ++ path.quote
  | parseConfig path => "Unable to parse config file " ++ path.quote
  | configure => "Invalid configuration"
  | openReport path => "Unable to open report " ++ path.quote
  | parseReport path => "Unable to parse report " ++ path.quote
  | createReport path => "Unable to create report " ++ path.quote
  | writeReport path => "Unable to write report " ++ path.quote
  | openTable path => "Unable to open table " ++ path.quote
  | readTable path => "Unable to read table " ++ path.quote
  | createTable path => "Unable to create table " ++ path.quote
  | writeTable path => "Unable to write table " ++ path.quote
  | parseTableRow .radix => "Unable to parse radix row"
  | parseTableRow .ecpt => "Unable to parse ECPT row"
  | openAccess path => "Unable to open access table " ++ path.quote
  | readAccess path => "Unable to read access table " ++ path.quote
  | readHeader => "Unable to read header"
  | readRow => "Unable to read row"
  | parseRow => "Unable to parse row"
  | join => "Unable to join"
  | joinFiles access latency => "Unable to join " ++ access.quote ++ " with " ++ latency.quote
  | baselineIpc => "Unable to compute baseline IPC"
  | candidateIpc => "Unable to compute candidate IPC"
  | compareDesigns => "Unable to compare designs"
  | createComparison path => "Unable to create comparison " ++ path.quote
  | writeComparison path => "Unable to write comparison " ++ path.quote

/-! ### Errors -/

/-- A cause with the attempts that it ended, innermost first. -/
structure Error where
  cause : Cause
  attempts : List Attempt := []
deriving DecidableEq

namespace Error

/-- The error that ends one more attempt. -/
def during (e : Error) (a : Attempt) : Error := { e with attempts := e.attempts ++ [a] }

/-- The texts of an error, outermost first.  An unforeseen cause belongs to
no attempt. -/
def texts (e : Error) : List String :=
  if e.cause.isUnforeseen then e.cause.message?.toList
  else e.attempts.reverse.map Attempt.message ++ e.cause.message?.toList

/-- An error on one line. -/
def message (e : Error) : String := ": ".intercalate e.texts

/-- A text with its later lines moved right as far as its first. -/
def indent (margin : String) (text : String) : String :=
  String.ofList (text.toList.flatMap fun c =>
    if c = '\n' then '\n' :: (Text.spaces margin.length).toList else [c])

/-- A reason below an error: after its number, if there are several. -/
def reason (number? : Option Nat) (text : String) : String :=
  let margin := match number? with
    | some n => Text.padLeft 5 (toString n) ++ ": "
    | none => Text.spaces 4
  "\n" ++ margin ++ indent margin text

/-- An error as a report of several lines: the outermost text, then the
reasons below it, numbered if there are several. -/
def report (e : Error) : String :=
  match e.texts with
  | [] => ""
  | [text] => text
  | [text, only] => text ++ "\n\nCaused by:" ++ reason none only
  | text :: reasons =>
    text ++ "\n\nCaused by:" ++
      String.join (reasons.zipIdx.map fun (r, n) => reason (some n) r)

end Error

/-- A result that names the attempt it belongs to, if it fails. -/
def attempting {α : Type} (a : Attempt) : Except Error α → Except Error α
  | .ok x => .ok x
  | .error e => .error (e.during a)

/-- A failure with nothing attempted yet. -/
def fail {α : Type} (c : Cause) : Except Error α := .error { cause := c }

@[simp] theorem attempting_ok {α : Type} (a : Attempt) (x : α) :
    attempting a (.ok x) = .ok x := rfl

@[simp] theorem attempting_error {α : Type} (a : Attempt) (e : Error) :
    (attempting a (.error e) : Except Error α) = .error (e.during a) := rfl

@[simp] theorem cause_during (e : Error) (a : Attempt) : (e.during a).cause = e.cause := rfl

end PageWalk
