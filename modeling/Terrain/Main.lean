import Terrain.Command.Process

/-!
# The program

The command on the files of the disk.  It prints what the command prints, reports what went wrong
on the error stream, and ends with its code.
-/

namespace Terrain.Command

def usage : String :=
  "Usage: voxc [options] [graph.yaml]\n\nOptions:\n" ++
    String.join (flags.map fun (name, _) => s!"  -{name}\n")

def systemReason : IO.Error → String
  | .noFileOrDirectory _ _ details => details.decapitalize
  | .inappropriateType _ _ details => details.decapitalize
  | .permissionDenied _ _ details => details.decapitalize
  | .alreadyExists _ _ details => details.decapitalize
  | e => e.toString

/-- a folder opens and only then cannot be read -/
def readFault (path reason : String) : FileError :=
  ⟨if reason == FileTree.notFile then "read" else "open", path, reason⟩

def onDisk {α : Type} (operation : IO α) (fault : String → FileError) :
    IO (Except FileError α) := do
  try return .ok (← operation)
  catch e => return .error (fault (systemReason e))

def disk : FileAccess IO where
  isThere path := do
    match ← onDisk (IO.FS.readBinFile path) (readFault path) with
    | .ok _ => return true
    | .error e => return e.reason != FileTree.noEntry && e.reason != FileTree.noFolder
  read path := onDisk (return (← IO.FS.readBinFile path).toList) (readFault path)
  makeFolders path := onDisk (IO.FS.createDirAll path) (⟨"mkdir", path, ·⟩)
  write path bytes :=
    onDisk (IO.FS.writeBinFile path ⟨bytes.toArray⟩) (⟨"open", path, ·⟩)

def runOnDisk (words : List String) : IO UInt32 := do
  match parseFlags words with
  | .error e =>
    IO.eprint usage
    return e.exitCode
  | .ok _ =>
    let exit ← execute disk .unreachable (← IO.currentDir).toString words
    IO.print exit.output
    if let some e := exit.error then IO.eprintln e.report
    return exit.code

end Terrain.Command

def main (words : List String) : IO UInt32 := Terrain.Command.runOnDisk words
