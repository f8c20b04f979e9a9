/-
PageWalk/Files/Tree.lean

File systems as values: a tree of directories and files around the working
directory.  Its operations refuse what a file system refuses, for the same
reasons.
-/
import PageWalk.Files.Basic
import PageWalk.SortedMap

namespace PageWalk

/-- Where something is: the steps of the shortest way to it from the working
directory, upward steps first.  The way to what is named from the root
starts there, with a slash. -/
abbrev Location := List Bytes

/-- What is at a location. -/
inductive Entry where
  | file (contents : Bytes)
  | directory
deriving DecidableEq

namespace Location

/-- The step to the directory above. -/
def upwards : Bytes := [Path.dot, Path.dot]

/-- The directory that has none above it. -/
def root : Location := [[Path.slash]]

/-- Whether a location is the working directory or leads upwards only. -/
def leadsUpwards (l : Location) : Bool := l.all (· == upwards)

/-- Whether a location is below the working directory. -/
def isWithin (l : Location) : Bool :=
  match l.head? with
  | some step => step != upwards && step != [Path.slash]
  | none => false

/-- Where a step leads: two dots lead to the directory above, and one
stays. -/
def next (l : Location) (step : Bytes) : Location :=
  if step == [Path.dot] then l
  else if step == upwards then
    if l == root then l else if l.leadsUpwards then l ++ [upwards] else l.dropLast
  else l ++ [step]

end Location

/-- A tree, by the locations of its files and directories.  The working
directory, the root and whatever leads upwards need no entry. -/
structure FileTree where
  places : SortedMap Location Entry

namespace FileTree

/-- The tree of an empty working directory. -/
def empty : FileTree := ⟨.empty⟩

instance : Inhabited FileTree := ⟨empty⟩

/-- What is at a location. -/
def entry? (t : FileTree) (l : Location) : Option Entry :=
  if l == .root || l.leadsUpwards then some .directory else t.places.get? l

/-- The tree with something else at a location. -/
def put (t : FileTree) (l : Location) (e : Entry) : FileTree := ⟨t.places.insert l e⟩

/-! ### Following paths -/

/-- Where a walk leads.  Each of its steps must start at a directory. -/
def follow (t : FileTree) (l : Location) : List Bytes → Except FileError Location
  | [] => .ok l
  | step :: steps =>
    match t.entry? l with
    | none => .error .notFound
    | some (.file _) => .error .notDirectory
    | some .directory =>
      if Path.maxStep < step.length then .error .nameTooLong else t.follow (l.next step) steps

/-- Where some steps of a path lead.  A path that is no name at all is
refused before any step. -/
def walk (t : FileTree) (p : Path) (steps : List Bytes) : Except FileError Location :=
  if p.bytes.contains 0 then .error .zeroInName
  else if p.bytes.isEmpty then .error .notFound
  else if Path.maxLength < p.bytes.length then .error .nameTooLong
  else t.follow (if p.isAbsolute then .root else []) steps

/-- Where a path leads. -/
def locate (t : FileTree) (p : Path) : Except FileError Location := t.walk p p.steps

/-- Where the directory is that the last step of a path starts at. -/
def locateParent (t : FileTree) (p : Path) : Except FileError Location :=
  t.walk p (p.steps.dropLast ++ [[Path.dot]])

/-- What a path leads to, if it is there. -/
def find (t : FileTree) (p : Path) : Except FileError Entry := do
  match t.entry? (← t.locate p) with
  | none => .error .notFound
  | some (.file contents) => if p.namesDirectory then .error .notDirectory else .ok (.file contents)
  | some .directory => .ok .directory

/-- Where a file can be written at a path. -/
def place (t : FileTree) (p : Path) : Except FileError Location := do
  if p.namesDirectory then
    let _ ← t.locateParent p
    .error .isDirectory
  else
    let l ← t.locate p
    match t.entry? l with
    | some .directory => .error .isDirectory
    | _ => .ok l

/-! ### Operations -/

/-- Open a path for reading. -/
def openFile (t : FileTree) (p : Path) : Except FileError Opened := do
  match ← t.find p with
  | .file contents => return .contents contents
  | .directory => return .directory

/-- Write a file, in place of what was there. -/
def write (t : FileTree) (p : Path) (contents : Bytes) : Except FileError FileTree := do
  return t.put (← t.place p) (.file contents)

/-- Write at the end of a file. -/
def append (t : FileTree) (p : Path) (contents : Bytes) : Except FileError FileTree := do
  let l ← t.place p
  let old := match t.entry? l with
    | some (.file old) => old
    | _ => []
  return t.put l (.file (old ++ contents))

/-- Copy a file.  The target is emptied first, so a file that is copied
onto itself is lost. -/
def copy (t : FileTree) (source target : Path) : Except FileError FileTree := do
  let _ ← (← t.openFile source).read
  let t ← t.write target []
  t.write target (← (← t.openFile source).read)

/-- Whether a path leads to a file. -/
def isFile (t : FileTree) (p : Path) : Bool :=
  match t.find p with
  | .ok (.file _) => true
  | _ => false

/-- The names in a directory. -/
def names (t : FileTree) (l : Location) : List Bytes :=
  t.places.keys.filterMap fun l' => if l'.dropLast == l then l'.getLast? else none

/-- The entries of a directory. -/
def entries (t : FileTree) (p : Path) : Except FileError (List DirectoryEntry) := do
  match ← t.find p with
  | .file _ => .error .notDirectory
  | .directory =>
    return (t.names (← t.locate p)).map fun name => ⟨name, t.isFile (p.join name)⟩

/-- Make a directory where nothing is. -/
def makeDirectory (t : FileTree) (p : Path) : Except FileError FileTree := do
  let l ← t.locate p
  match t.entry? l with
  | none => return t.put l .directory
  | some _ => .error .alreadyExists

/-- The files below the working directory. -/
def files (t : FileTree) : List (Location × Bytes) :=
  t.places.entries.filterMap fun (l, e) =>
    match e with
    | .file contents => if l.isWithin then some (l, contents) else none
    | .directory => none

/-- Change the tree, unless that is refused. -/
def update (change : FileTree → Except FileError FileTree) :
    StateM FileTree (Except FileError Unit) := fun t =>
  match change t with
  | .ok t' => (.ok (), t')
  | .error e => (.error e, t)

instance : Files (StateM FileTree) where
  openFile p := fun t => (t.openFile p, t)
  write p contents := update (·.write p contents)
  append p contents := update (·.append p contents)
  copy source target := update (·.copy source target)
  entries p := fun t => ((t.entries p).map (·.map .ok), t)
  makeDirectory p := update (·.makeDirectory p)

end FileTree

end PageWalk
