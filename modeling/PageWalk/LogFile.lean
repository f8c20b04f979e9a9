/-
PageWalk/LogFile.lean

Log files and the benchmarks they belong to.  A log is named for its
benchmark, followed by a suffix and perhaps more.  A directory is searched
for such names (`discover`); a file that is given directly is taken
whatever its name is (`ofPath`).
-/
import PageWalk.Event
import PageWalk.Files.Basic

namespace PageWalk

/-- The log of a benchmark. -/
structure LogFile where
  benchmark : String
  path : Path
deriving DecidableEq

namespace LogFile

/-- The benchmark of a log with a name: what stands before the first
`suffix`, unless that is nothing. -/
def benchmarkName? (suffix name : String) : Option String :=
  match Text.before? suffix.toList name.toList with
  | some (c :: cs) => some (String.ofList (c :: cs))
  | _ => none

/-- Whether a path has one of some extensions, in upper or lower case. -/
def isExcluded (extensions : List String) (path : Path) : Bool :=
  match path.extension?.bind Utf8.decode? with
  | some extension =>
    extensions.any fun e => Text.lowerAscii e == Text.lowerAscii (String.ofList extension)
  | none => false

/-- The text of a part of a path. -/
def partText (part : Bytes) : String := String.ofList (Utf8.decodeLossy part)

/-- The log at a path.  Where its name tells no benchmark, the benchmark is
the name without its extension, or the whole path if that has no name. -/
def ofPath (suffix : String) (path : Path) : LogFile where
  benchmark :=
    match benchmarkName? suffix (partText (path.fileName?.getD [])) with
    | some benchmark => benchmark
    | none => (path.stem?.map partText).getD path.display
  path := path

/-! ### Searching directories -/

/-- The log that a directory entry is, if it is one: a file with a name
that is text, tells a benchmark and has none of the excluded extensions. -/
def candidate? (directory : Path) (suffix : String) (excluded : List String)
    (entry : DirectoryEntry) : Option LogFile :=
  if entry.isFile && !isExcluded excluded ⟨entry.name⟩ then do
    let name ← Utf8.decode? entry.name
    let benchmark ← benchmarkName? suffix (String.ofList name)
    return ⟨benchmark, directory.join entry.name⟩
  else none

/-- Logs are ordered by their benchmarks, then by their paths. -/
def le (a b : LogFile) : Bool :=
  ((compare a.benchmark b.benchmark).then (compare a.path.bytes b.path.bytes)).isLE

/-- The logs among the entries of a directory, in order. -/
def select (directory : Path) (suffix : String) (excluded : List String)
    (entries : List DirectoryEntry) : List LogFile :=
  (entries.filterMap (candidate? directory suffix excluded)).mergeSort le

/-- What is told of the files whose names are no text: of those that are listed
before the first entry that is refused. -/
def unnamed : List (Except FileError DirectoryEntry) → List Event
  | .ok entry :: listed =>
    if entry.isFile && (Utf8.decode? entry.name).isNone then .nameNotText :: unnamed listed
    else unnamed listed
  | _ => []

/-- The logs among the entries that a directory lists, in order, unless one of
the entries is refused. -/
def selectAll (directory : Path) (suffix : String) (excluded : List String)
    (listed : List (Except FileError DirectoryEntry)) : Except Error (List LogFile) :=
  match listed.mapM id with
  | .error e => .error { cause := .file e, attempts := [.readEntry directory] }
  | .ok entries => .ok (select directory suffix excluded entries)

/-- The logs in a directory, in order, and what is told of other files. -/
def discover {m : Type → Type} [Monad m] [Files m] (directory : Path) (suffix : String)
    (excluded : List String) : m (Except Error (List LogFile) × List Event) := do
  return match ← Files.entries directory with
    | .error e => (.error { cause := .file e, attempts := [.readDirectory directory] }, [])
    | .ok listed => (selectAll directory suffix excluded listed, unnamed listed)

end LogFile

end PageWalk
