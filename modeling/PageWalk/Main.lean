/-
PageWalk/Main.lean

The program: the command line on the files of the machine.
-/
import PageWalk.CommandLine.Run

namespace PageWalk

/-- Why the system refuses. -/
def FileError.ofSystem : IO.Error → FileError
  | .noFileOrDirectory .. => .notFound
  | .alreadyExists .. => .alreadyExists
  | .inappropriateType _ 20 _ => .notDirectory
  | .inappropriateType _ 21 _ => .isDirectory
  | .invalidArgument _ 36 _ => .nameTooLong
  | e => .other (toString e)

/-- What an action on files comes to. -/
def tryFiles {α : Type} (action : IO α) : IO (Except FileError α) := do
  try return .ok (← action)
  catch e => return .error (.ofSystem e)

/-- The bytes of a file. -/
def readAll (path : String) : IO Bytes := do
  return (← (← IO.FS.Handle.mk path .read).readBinToEnd).toList

/-- Bytes as they are written. -/
def packed (bytes : Bytes) : ByteArray := ⟨bytes.toArray⟩

/-- What stands at a path, as its directory would list it. -/
def located (path : Path) : IO.FS.DirEntry := ⟨path.display, ""⟩

/-- Whether a path leads to a file. -/
def leadsToFile (path : Path) : IO Bool := do
  try return (← (located path).root.metadata).type == .file
  catch _ => return false

instance : Files IO where
  openFile path := do
    match ← tryFiles (readAll path.display) with
    | .ok bytes => return .ok (.contents bytes)
    | .error .isDirectory => return .ok .directory
    | .error e => return .error e
  write path bytes := tryFiles (IO.FS.writeBinFile path.display (packed bytes))
  append path bytes := tryFiles do
    (← IO.FS.Handle.mk path.display .append).write (packed bytes)
  copy source target := tryFiles do
    let _ ← readAll source.display
    IO.FS.writeBinFile target.display (packed [])
    IO.FS.writeBinFile target.display (packed (← readAll source.display))
  entries path := tryFiles do
    (← (located path).root.readDir).toList.mapM fun entry => do
      -- the system is asked for all entries at once, so none is refused alone
      let name := Utf8.encode entry.fileName.toList
      return .ok ⟨name, ← leadsToFile (path.join name)⟩
  makeDirectory path := tryFiles (IO.FS.createDir path.display)

end PageWalk

def main (args : List String) : IO UInt32 := do
  let outcome : PageWalk.CommandLine.Outcome ← PageWalk.CommandLine.run args
  IO.print outcome.stdout
  IO.eprint outcome.stderr
  return outcome.exit.toUInt32
