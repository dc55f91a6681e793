import Terrain.Path

/-!
# Files

What a program asks of a file system, and a file system that is a value.  The operations are a
record, so that the same program runs on files of a disk and, where its result is reasoned about,
on a `FileTree`.
-/

namespace Terrain

structure FileError where
  operation : String
  path : String
  reason : String
deriving DecidableEq, Repr

def FileError.message (e : FileError) : String := s!"{e.operation} {e.path}: {e.reason}"

structure FileAccess (m : Type → Type) where
  isThere : String → m Bool
  read : String → m (Except FileError (List UInt8))
  makeFolders : String → m (Except FileError Unit)
  write : String → List UInt8 → m (Except FileError Unit)

/-- files by absolute clean path; the folders that hold them are there, others are listed -/
structure FileTree where
  files : List (String × List UInt8)
  folders : List String
deriving DecidableEq

namespace FileTree

def ofTexts (root : String) (texts : List (String × String)) (folders : List String) : FileTree :=
  ⟨texts.map fun (p, text) => (Path.join root p, text.toUTF8.toList),
    root :: folders.map (Path.join root)⟩

def file? (t : FileTree) (p : String) : Option (List UInt8) := t.files.lookup p

def isFile (t : FileTree) (p : String) : Bool := (t.file? p).isSome

def isFolder (t : FileTree) (p : String) : Bool :=
  p == "/" || t.folders.any (fun q => q == p || q.startsWith (p ++ "/")) ||
    t.files.any fun (q, _) => q.startsWith (p ++ "/")

/-- is a file in the place of a folder above this path? -/
def isBlocked (t : FileTree) (p : String) : Bool := ((Path.ancestors p).drop 1).any t.isFile

def noEntry : String := "no such file or directory"
def noFolder : String := "not a directory"
def notFile : String := "is a directory"

def read (t : FileTree) (cwd path : String) : Except FileError (List UInt8) :=
  let p := Path.resolve cwd path
  match t.file? p with
  | some bytes => .ok bytes
  | none =>
    .error (if t.isFolder p then ⟨"read", path, notFile⟩
      else ⟨"open", path, if t.isBlocked p then noFolder else noEntry⟩)

def isThere (t : FileTree) (cwd path : String) : Bool :=
  let p := Path.resolve cwd path
  t.isFile p || t.isFolder p

/-- each prefix of a path that ends in a slash, the shortest first, as it is written -/
def steps (path : String) : List String :=
  let all := path.splitOn "/"
  ((List.range all.length).map fun n => "".intercalate ((all.take n).map (· ++ "/"))).filter
    (· != "")

/-- a file at the path itself is no folder; one further up is found when the folder that should be
there is made -/
def makeFolders (t : FileTree) (cwd path : String) : Except FileError FileTree :=
  let p := Path.resolve cwd path
  if t.isFolder p then .ok t
  else if t.isFile p then .error ⟨"mkdir", path, noFolder⟩
  else match (steps path).find? fun step => t.isFile (Path.resolve cwd step) with
    | some step => .error ⟨"mkdir", step, "file exists"⟩
    | none => .ok { t with folders := p :: t.folders }

def setFile (files : List (String × List UInt8)) (p : String) (bytes : List UInt8) :
    List (String × List UInt8) :=
  if files.any (·.1 == p) then files.map fun (q, b) => (q, if q == p then bytes else b)
  else files ++ [(p, bytes)]

def write (t : FileTree) (cwd path : String) (bytes : List UInt8) : Except FileError FileTree :=
  let p := Path.resolve cwd path
  if t.isFolder p then .error ⟨"open", path, notFile⟩
  else if t.isBlocked p then .error ⟨"open", path, noFolder⟩
  else if t.isFolder (Path.parent p) then .ok { t with files := setFile t.files p bytes }
  else .error ⟨"open", path, noEntry⟩

/-- the files under a folder that were not there before, by their paths in it -/
def added (before after : FileTree) (root : String) : List (String × List UInt8) :=
  (after.files.filter fun (p, _) => !before.isFile p).map fun (p, bytes) =>
    ((p.dropPrefix (root ++ "/")).toString, bytes)

/-- a tree as the files of a program that runs in the folder `cwd` -/
def access (cwd : String) : FileAccess (StateM FileTree) where
  isThere path := return (← get).isThere cwd path
  read path := return (← get).read cwd path
  makeFolders path := do
    match (← get).makeFolders cwd path with
    | .ok t => set t; return .ok ()
    | .error e => return .error e
  write path bytes := do
    match (← get).write cwd path bytes with
    | .ok t => set t; return .ok ()
    | .error e => return .error e

end FileTree
end Terrain
