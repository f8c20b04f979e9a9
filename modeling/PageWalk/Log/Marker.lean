/-
PageWalk/Log/Marker.lean

Where the statistics of a log start.  Logs open with free-form output; the
statistics follow a marker line.  A log of several passes has several
markers, of which the last one counts.
-/
import PageWalk.Error
import PageWalk.Log.Line

namespace PageWalk

/-- What the line before the records of a format starts with. -/
def RecordFormat.marker : RecordFormat → String
  | simple => "~~~~~~~~~~~~~~~"
  | withWay => "~~~~~~ full stats with way ~~~~~~"

/-- Whether a line that starts with a tilde ends the records of a format. -/
def RecordFormat.endsAtTilde : RecordFormat → Bool
  | simple => true
  | withWay => false

namespace Log

/-- The number of the last of `lines` that starts with `marker`; `number`
is that of the first of them, and `found` what earlier lines gave. -/
def lastMarker (marker : List Char) (number : Nat) (found : Option Nat) :
    List Bytes → Except FileError (Option Nat)
  | [] => .ok found
  | line :: lines =>
    match lineText? line with
    | none => .error .notText
    | some text =>
      lastMarker marker (number + 1) (if marker.isPrefixOf text then some number else found) lines

/-- The number of the last line that starts with `marker`, counted from
zero. -/
def markerLine? (marker : List Char) (log : Bytes) : Except FileError (Option Nat) :=
  lastMarker marker 0 none (rawLines log)

end Log

end PageWalk
