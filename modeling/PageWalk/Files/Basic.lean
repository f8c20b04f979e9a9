/-
PageWalk/Files/Basic.lean

What the program asks of a file system.  Everything that touches files is
written against this class, so it runs on real files and on trees that are
plain values (`FileTree`) alike.
-/
import PageWalk.Error

namespace PageWalk

/-- An entry of a directory, and whether the path of the directory, joined
with the name, leads to a file. -/
structure DirectoryEntry where
  name : Bytes
  isFile : Bool
deriving DecidableEq

/-- What opening a path for reading finds.  A directory can be opened, but
not read. -/
inductive Opened where
  | contents (bytes : Bytes)
  | directory
deriving DecidableEq

/-- The bytes that can be read. -/
def Opened.read : Opened → Except FileError Bytes
  | contents bytes => .ok bytes
  | directory => .error .isDirectory

/-- Computations with files. -/
class Files (m : Type → Type) where
  /-- Open a path for reading. -/
  openFile : Path → m (Except FileError Opened)
  /-- Write a file, in place of what was there. -/
  write : Path → Bytes → m (Except FileError Unit)
  /-- Write at the end of a file. -/
  append : Path → Bytes → m (Except FileError Unit)
  /-- Copy a file.  The target is emptied before the source is read. -/
  copy : Path → Path → m (Except FileError Unit)
  /-- The entries of a directory, in no particular order.  Each of them can be
  refused as it is read. -/
  entries : Path → m (Except FileError (List (Except FileError DirectoryEntry)))
  /-- Make a directory where nothing is. -/
  makeDirectory : Path → m (Except FileError Unit)

namespace Files

variable {m : Type → Type} [Monad m] [Files m]

/-- Make a directory, unless there is one. -/
def ensureDirectory (p : Path) : m (Except FileError Unit) := do
  match ← makeDirectory p with
  | .ok () => return .ok ()
  | .error e =>
    return match ← openFile p with
      | .ok .directory => .ok ()
      | _ => .error e

/-- Make a directory; where the way to it is not there, clear that first. -/
def ensureAfter (clearWay : m (Except FileError Unit)) (p : Path) :
    m (Except FileError Unit) := do
  match ← ensureDirectory p with
  | .error .notFound =>
    match ← clearWay with
    | .ok () => ensureDirectory p
    | .error e => return .error e
  | result => return result

/-- Make the directory of some parts, last first, and those that it is in. -/
def makeChain (absolute : Bool) : List Bytes → m (Except FileError Unit)
  | [] => return .ok ()
  | name :: above =>
    ensureAfter (makeChain absolute above) (.ofParts absolute (name :: above).reverse)

/-- Make a directory and the directories that it is in.  What has been made
stays if a later step is refused. -/
def makeDirectories (p : Path) : m (Except FileError Unit) :=
  if p.bytes.isEmpty then return .ok ()
  else ensureAfter (makeChain p.isAbsolute p.parts.dropLast.reverse) p

end Files

end PageWalk
