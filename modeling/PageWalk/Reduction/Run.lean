/-
PageWalk/Reduction/Run.lean

Reducing a trace: every line of the statistics section of a log is read as
a record and handed to a reducer.  Lenient runs tally issues, strict runs
fail at the first.
-/
import PageWalk.Event
import PageWalk.Log.Reader
import PageWalk.Reduction.Reducer

namespace PageWalk.Reduction

/-- How a trace is reduced. -/
structure Mode where
  /-- Whether an issue fails the trace. -/
  strict : Bool := false
  /-- Whether the state is told after every record. -/
  verbose : Bool := false

/-- How far a reduction has come. -/
structure State (σ : Type) where
  reducer : σ
  records : Nat := 0
  issues : IssueTally := .empty
  events : List Event := []

variable {σ : Type}

/-- Tell an event. -/
def State.tell (s : State σ) (e : Event) : State σ := { s with events := s.events ++ [e] }

/-- Pass over the issues of a line, or fail at the first. -/
def acceptIssues (mode : Mode) (line : Nat) :
    List Issue → State σ → Except Error Unit × State σ
  | [], s => (.ok (), s)
  | issue :: issues, s =>
    if mode.strict then
      (.error { cause := .issue issue, attempts := [.acceptRecord line] }, s)
    else
      let s := s.tell (.ignoredIssue issue)
      match s.issues.register issue with
      | .error c => (.error { cause := c }, s)
      | .ok tally => acceptIssues mode line issues { s with issues := tally }

variable [Reducer σ]

/-- Read a line as a record and hand it to the reducer.  Lines are told by
their numbers counted from one. -/
def step (mode : Mode) (reader : Log.Reader) (line : Log.Line) (s : State σ) :
    Except Error Unit × State σ :=
  let number := line.number + 1
  match Record.parse reader.format line.text with
  | .error c => (.error { cause := c, attempts := [.parseRecord number] }, s)
  | .ok parsed =>
    match acceptIssues mode number parsed.issues s with
    | (.error e, s) => (.error e, s)
    | (.ok (), s) =>
      match Reducer.handle parsed.record s.reducer with
      | (.error c, reducer) =>
        (.error { cause := c, attempts := [.reduceRecord number] }, { s with reducer })
      | (.ok (), reducer) =>
        let s := { s with reducer, records := s.records + 1 }
        (.ok (),
          if mode.verbose then s.tell (.progress reader.progress (Reducer.describe reducer))
          else s)

/-- Reduce the lines that a reader has before it. -/
def run (mode : Mode) (reader : Log.Reader) (s : State σ) :
    Except Error Unit × Log.Reader × State σ :=
  match _h : reader.next with
  | (.error e, reader') => (.error (e.during .readNextLine), reader', s)
  | (.ok none, reader') => (.ok (), reader', s)
  | (.ok (some line), reader') =>
    match step mode reader' line s with
    | (.error e, s) => (.error e, reader', s)
    | (.ok (), s) => run mode reader' s
termination_by reader.rest.length
decreasing_by exact Log.Reader.length_rest_lt_of_next _h

/-- What a trace was reduced to. -/
structure Output where
  records : Nat
  issues : IssueTally
  statistics : Statistics

/-- Reduce a trace with a reducer that has taken nothing. -/
def reduce (mode : Mode) (reader : Log.Reader) (reducer : σ) :
    Except Error Output × Log.Reader × List Event :=
  let (result, reader, s) := run mode reader { reducer }
  let output := result.map fun () =>
    { records := s.records, issues := s.issues, statistics := Reducer.statistics s.reducer }
  (output, reader, s.events)

end PageWalk.Reduction
