/-
PageWalk/Log/Input.lean

Reading a byte sequence line by line into a buffer.  One buffer serves for
all lines: it is cleared, the next line is appended to it as it stands, and
then the end of the line is taken off.
-/
import PageWalk.Error
import PageWalk.Log.Line

namespace PageWalk.Log

/-- A byte sequence that is read line by line. -/
structure Input where
  /-- Where lines are read into. -/
  buffer : List Char
  /-- What has not been read. -/
  rest : Bytes
deriving DecidableEq

namespace Input

/-- The input with nothing in its buffer. -/
def clear (i : Input) : Input := { i with buffer := [] }

/-- Append the next line with its end to the buffer, and tell how many bytes
it has: none at the end of the input.  A line that is no text is passed over,
and the buffer left as it was. -/
def append (i : Input) : Except FileError Nat × Input :=
  let (line, rest) := splitLine i.rest
  match Utf8.decode? line with
  | none => (.error .notText, { i with rest })
  | some text => (.ok line.length, { buffer := i.buffer ++ text, rest })

/-- Read the next line without its end into the buffer, and tell how many
bytes it has with its end: none at the end of the input. -/
def next (i : Input) : Except FileError Nat × Input :=
  match i.clear.append with
  | (.error e, i') => (.error e, i')
  | (.ok length, i') => (.ok length, { i' with buffer := stripEnd i'.buffer })

end Input

end PageWalk.Log
