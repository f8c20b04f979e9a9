/-
PageWalk/Path.lean

Paths of files.  A path is a byte sequence; slashes separate its steps,
and empty steps are none.  A single dot is a step that stays where it is;
the other steps are the parts of the path.  The file name is the last part,
unless that leads upwards.
-/
import PageWalk.Text.Quoted

namespace PageWalk

/-- Where a file is, as the user or a directory names it. -/
structure Path where
  bytes : Bytes
deriving DecidableEq, Inhabited

namespace Path

/-- The slash between parts. -/
def slash : UInt8 := 0x2F

/-- The dot before an extension. -/
def dot : UInt8 := 0x2E

/-- The most bytes that a path can have. -/
def maxLength : Nat := 4095

/-- The most bytes that a step of a path can have. -/
def maxStep : Nat := 255

/-- The path that a text spells. -/
def ofString (s : String) : Path := ⟨Utf8.encode s.toList⟩

/-- The path as its text, with U+FFFD where it has none. -/
def display (p : Path) : String := String.ofList (Utf8.decodeLossy p.bytes)

/-- The path in quotes, as messages name it. -/
def quote (p : Path) : String := Text.quoteBytes p.bytes

/-- The path as its text, if it has one. -/
def text? (p : Path) : Option String := (Utf8.decode? p.bytes).map String.ofList

/-! ### Parts -/

/-- The steps of a walk along the path. -/
def steps (p : Path) : List Bytes := (p.bytes.splitOn slash).filter fun step => !step.isEmpty

/-- The parts: the steps that lead away from where they start. -/
def parts (p : Path) : List Bytes := p.steps.filter (· != [dot])

/-- Whether the path starts at the root. -/
def isAbsolute (p : Path) : Bool := p.bytes.head? == some slash

/-- The path of some parts, from the root or from the working directory. -/
def ofParts (absolute : Bool) (parts : List Bytes) : Path :=
  ⟨(if absolute then [slash] else []) ++ [slash].intercalate parts⟩

/-- Whether the path ends in a slash, and so can only lead to a directory. -/
def namesDirectory (p : Path) : Bool := p.bytes.getLast? == some slash

/-- The file name: the last part, unless it leads upwards. -/
def fileName? (p : Path) : Option Bytes :=
  p.parts.getLast?.filter (· != [dot, dot])

/-- A file name cut at its last dot, unless it starts with that dot. -/
def splitExtension (name : Bytes) : Bytes × Option Bytes :=
  let extension := (name.reverse.takeWhile (· != dot)).reverse
  let stem := (name.reverse.dropWhile (· != dot)).reverse.dropLast
  if name == [dot, dot] || stem.isEmpty then (name, none) else (stem, some extension)

/-- The file name without its extension. -/
def stem? (p : Path) : Option Bytes := p.fileName?.map fun name => (splitExtension name).1

/-- What stands after the last dot of the file name. -/
def extension? (p : Path) : Option Bytes := p.fileName?.bind fun name => (splitExtension name).2

/-- The path of `name` in the directory `p`; an absolute `name` stands for
itself. -/
def join (p : Path) (name : Bytes) : Path :=
  if name.head? == some slash then ⟨name⟩
  else if p.bytes.isEmpty || p.bytes.getLast? == some slash then ⟨p.bytes ++ name⟩
  else ⟨p.bytes ++ slash :: name⟩

end Path

end PageWalk
