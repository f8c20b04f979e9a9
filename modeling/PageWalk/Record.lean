/-
PageWalk/Record.lean

Records: the lines of a statistics section.  Each describes one pattern of
page walks by the levels at which its probes were resolved, and says how
often the pattern occurred:

    ZERO,ZERO,PWC,MEMORY,   497        (simple)
    L1,LLC,MEMORY,1<tab>5              (with the winning way before it)

A line is read as far as it can be.  Unknown labels keep their place,
numbers that are none count as zero, and both are reported as issues; only
a way outside the walk makes a record unreadable.
-/
import PageWalk.Error
import PageWalk.Level
import PageWalk.Text.Blank
import PageWalk.Text.Numeral

namespace PageWalk

/-- A pattern of page walks. -/
structure Record where
  /-- The level of each probe, in order; `none` for an unknown label. -/
  probes : List (Option Level)
  /-- How often the pattern occurred. -/
  frequency : Count
  /-- Which probe held the translation. -/
  way : Option Nat
deriving DecidableEq

/-- A record with what was wrong in its line. -/
structure ParsedRecord where
  record : Record
  issues : List Issue
deriving DecidableEq

namespace Record

/-! ### Fields -/

/-- The level that a field names, blanks around its label aside. -/
def probe (field : List Char) : Option Level :=
  Level.ofLabel? (String.ofList (Text.trim field))

/-- One issue for each field that names no level, in order. -/
def labelIssues (fields : List (List Char)) : List Issue :=
  fields.zipIdx.filterMap fun (field, position) =>
    match probe field with
    | some _ => none
    | none => some (.unknownLabel position (String.ofList field))

/-- The number that a field spells, blanks around it aside. -/
def number? (field : List Char) : Option Count := Counter.parse? (Text.trim field)

/-- A frequency, which is zero with an issue if the field spells none. -/
def frequencyField (field : List Char) : Count × List Issue :=
  match number? field with
  | some n => (n, [])
  | none => (0, [.malformedField .frequency (String.ofList field)])

/-- A way and a frequency with a tab between them; what a further tab
separates is ignored.  Without a readable way the frequency cannot be
trusted either, and both are zero with one issue for the whole field. -/
def wayField (field : List Char) : (Nat × Count) × List Issue :=
  let malformed : (Nat × Count) × List Issue :=
    ((0, 0), [.malformedField .way (String.ofList field)])
  match field.splitOn '\t' with
  | way :: frequency :: _ =>
    match number? way with
    | some w =>
      let (f, issues) := frequencyField frequency
      ((w.val, f), issues)
    | none => malformed
  | _ => malformed

/-! ### Lines -/

/-- The fields of a line: what its commas separate, blanks at its two ends
aside. -/
def fields (line : List Char) : List (List Char) := (Text.trim line).splitOn ','

/-- The record of a line. -/
def parse (format : RecordFormat) (line : List Char) : Except Cause ParsedRecord :=
  let all := fields line
  let labels := all.dropLast
  let last := all.getLast?.getD []
  let probes := labels.map probe
  match format with
  | .simple =>
    let (frequency, issues) := frequencyField last
    .ok ⟨⟨probes, frequency, none⟩, labelIssues labels ++ issues⟩
  | .withWay =>
    let ((way, frequency), issues) := wayField last
    if probes.length ≤ way then .error (.wayOutOfRange way probes.length)
    else .ok ⟨⟨probes, frequency, some way⟩, labelIssues labels ++ issues⟩

end Record

end PageWalk
