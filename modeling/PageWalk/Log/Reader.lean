/-
PageWalk/Log/Reader.lean

Reading the statistics section of a log line by line.  A log is opened in two
passes: the first looks for the marker, the second skips all up to it.  A
reader knows how far it has come, in lines and in bytes, and stops where the
section does: at the end of the log, or, for simple records, at the next line
that starts with a tilde.  Blank lines are passed over.
-/
import PageWalk.Log.Marker
import PageWalk.Text.Blank

namespace PageWalk.Log

/-- A line of a statistics section, with its number in the whole log,
counted from zero. -/
structure Line where
  number : Nat
  text : List Char
deriving DecidableEq

/-- A place in the statistics section of a log. -/
structure Reader where
  format : RecordFormat
  /-- The line of the marker, if there is one. -/
  markerLine : Option Nat
  /-- The number of the next line. -/
  nextLine : Nat
  /-- How many bytes have been read, and how many there are. -/
  bytesRead : Nat
  totalBytes : Nat
  /-- Whether the section has ended. -/
  finished : Bool
  /-- What has not been read. -/
  rest : Bytes
deriving DecidableEq

/-- How many bytes the first `n` lines of a log take, and what they leave.
They are read here for the second time: `marker` is the line at which the
marker was found before. -/
def skipLines (marker : Nat) : Nat → Bytes → Except Error (Nat × Bytes)
  | 0, bs => .ok (0, bs)
  | n + 1, bs =>
    let line := (splitLine bs).1
    match lineText? line with
    | none => .error { cause := .file .notText, attempts := [.skipPreamble] }
    | some _ =>
      if line.length = 0 then fail (.endedBeforeMarker marker)
      else do
        let (taken, rest) ← skipLines marker n (splitLine bs).2
        return (line.length + taken, rest)

/-- What comes before the section of a log whose marker is known: how many lines
and how many bytes, and what they leave.  A log without a marker has nothing
before its section. -/
def skipPreamble (markerLine : Option Nat) (log : Bytes) : Except Error (Nat × Nat × Bytes) :=
  match markerLine with
  | none => .ok (0, 0, log)
  | some line => do
    let (taken, rest) ← skipLines line (line + 1) log
    return (line + 1, taken, rest)

namespace Reader

/-- A reader at the start of the statistics section of a log: after the
marker, or at the first line if there is none. -/
def ofLog (format : RecordFormat) (log : Bytes) : Except Error Reader :=
  match markerLine? format.marker.toList log with
  | .error e => .error { cause := .file e, attempts := [.searchMarker] }
  | .ok markerLine => do
    let (nextLine, bytesRead, rest) ← skipPreamble markerLine log
    return { format, markerLine, nextLine, bytesRead, totalBytes := log.length,
             finished := false, rest }

/-- Whether a line ends the section. -/
def endsSection (r : Reader) (text : List Char) : Bool :=
  r.format.endsAtTilde && text.head? == some '~'

/-- The next line of the section that is not blank; `none` once the
section has ended. -/
def next (r : Reader) : Except Error (Option Line) × Reader :=
  if r.finished then (.ok none, r)
  else if _h : r.rest = [] then (.ok none, { r with finished := true })
  else
    let line := (splitLine r.rest).1
    let rest := (splitLine r.rest).2
    match lineText? line with
    | none =>
      (.error { cause := .file .notText, attempts := [.readLine (r.nextLine + 1)] },
        { r with rest })
    | some text =>
      let r' := { r with nextLine := r.nextLine + 1, bytesRead := r.bytesRead + line.length, rest }
      if Text.isBlankText text then next r'
      else if r.endsSection text then (.ok none, { r' with finished := true })
      else (.ok (some ⟨r.nextLine, text⟩), r')
termination_by r.rest.length
decreasing_by exact length_rest_lt _h

/-- The fraction of the log that has been read.  What follows the section
is never read, so at its end the whole log counts as read. -/
def progress (r : Reader) : Float :=
  if r.finished || r.totalBytes == 0 then 1.0
  else Float.ofNat r.bytesRead / Float.ofNat r.totalBytes

/-! ### What reading does to a reader -/

/-- A line that is read is taken off what has not been read. -/
theorem length_rest_lt_of_next {r r' : Reader} {line : Line}
    (h : r.next = (.ok (some line), r')) : r'.rest.length < r.rest.length := by
  fun_induction next r with
  | case1 => simp at h
  | case2 => simp at h
  | case3 => simp at h
  | case4 r _ hne _ rest _ _ _ _ ih => exact Nat.lt_trans (ih h) (length_rest_lt hne)
  | case5 => simp at h
  | case6 r _ hne =>
    simp only [Prod.mk.injEq] at h
    obtain ⟨-, rfl⟩ := h
    exact length_rest_lt hne

end Reader

end PageWalk.Log
