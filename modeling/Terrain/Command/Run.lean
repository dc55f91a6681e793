import Terrain.Command.Flags
import Terrain.Command.Network
import Terrain.Manifest.Basic
import Terrain.Pipeline.Generator
import Terrain.Service.Definition

/-!
# The compiler as a command

A command finds the manifest of the project, compiles the graph here or on another host, or looks
an artifact up there, and writes the source and the artifact.  What it needs from the outside are
files and a network; both are given to it.
-/

namespace Terrain.Command

open Hash (Digest)
open Pipeline (Generator PipelineError)
open Service (CompileRequest)

inductive CommandError where
  | manifest (e : ManifestError)
  | cacheFolder (e : FileError)
  | cache (reason : String)
  | listen (address : String) (fault : AddressFault)
  | unheard (address : String)
  | file (e : FileError)
  | document (path : String) (e : FileError)
  | malformed (path : String) (e : DocumentError)
  | parameter (e : ParameterError)
  | values (e : DocumentError)
  | rebuild (path : String) (e : PipelineError)
  | needsRemote
  | digest (e : Digest.Error)
  | remote (address reason : String)
  | artifact (e : ArtifactError)
  | write (path : String) (e : FileError)

namespace CommandError

def message : CommandError → String
  | manifest e => e.message
  | cacheFolder e => "creating cache dir: " ++ e.message
  | cache reason => reason
  | listen address fault => s!"listen tcp: address {address}: {fault.message}"
  | unheard address => s!"listen tcp {address}: network is unreachable"
  | file e => e.message
  | document _ e => "graphdoc: " ++ e.message
  | malformed path e => s!"{path}: {e.message}"
  | parameter e => e.message
  | values e => e.message
  | rebuild path e => s!"{path}: {e.message}"
  | needsRemote => "-fetch needs -remote"
  | digest e => e.message
  | remote address reason => s!"{address}: {reason}"
  | artifact e => e.message
  | write path e => s!"write {path}: {e.message}"

def blame : CommandError → Blame
  | parameter _ => .configuration
  | values e => e.blame
  | rebuild _ e => e.blame
  | _ => .other

end CommandError

/-- what a command leaves behind besides files: its output, and the graph whose node numbers the
next one goes on from -/
structure Shell where
  output : String
  graph : Graph

abbrev CommandM (m : Type → Type) := ExceptT CommandError (StateT Shell m)

section

variable {m : Type → Type} [Monad m]

def print (text : String) : CommandM m Unit :=
  modify fun s => { s with output := s.output ++ text ++ "\n" }

def attempt {α ε : Type} (operation : m (Except ε α)) (error : ε → CommandError) :
    CommandM m α := do
  match ← (operation : m _) with
  | .ok a => return a
  | .error e => throw (error e)

def liftError {α ε : Type} (result : Except ε α) (error : ε → CommandError) : CommandM m α :=
  match result with
  | .ok a => return a
  | .error e => throw (error e)

/-! ## the project -/

/-- the manifest of a folder, or the nearest above the working folder, or the default one -/
def projectManifest (files : FileAccess m) (cwd config : String) : CommandM m Manifest := do
  if !config.isEmpty then attempt (Manifest.load files cwd config) .manifest
  else match ← (Manifest.find files cwd cwd : m _) with
    | some result => liftError result .manifest
    | none => return .byDefault cwd

def openCache (files : FileAccess m) (path : String) : CommandM m TableStore := do
  attempt (files.makeFolders (Path.parent path)) .cacheFolder
  match ← (files.read path : m _) with
  | .ok bytes =>
    match TableStore.ofBytes path bytes with
    | some store => return store
    | none => throw (.cache "creating table: file is not a database (26)")
  | .error _ =>
    let store := TableStore.empty path
    attempt (files.write path store.toBytes) fun _ =>
      .cache "setting busy timeout: unable to open database file: out of memory (14)"
    return store

/-! ## getting an artifact -/

def documentText (bytes : List UInt8) : Option String :=
  String.fromUTF8? (ByteArray.mk bytes.toArray)

def mergedValues (manifest document : Bindings) : Bindings :=
  manifest ++ document.filter fun (name, _) => (manifest.lookup name).isNone

def compileDocument (doc : Document) (manifest : Manifest) (options : Compile.Options)
    (values : Bindings) (graph : Graph) : Except PipelineError Program × Graph :=
  let (roots, graph) := doc.roots graph
  let generator := Generator.create { options with bindings := [] } manifest.seed
    (mergedValues options.bindings values) none
  let (result, _) := generator.rebuild (fun _ => .reliable) fun g =>
    (⟨graph, roots.mapError .document⟩, g)
  (result.map Generator.Rebuilt.program, graph)

def compileLocal (files : FileAccess m) (path : String) (manifest : Manifest) :
    CommandM m Program := do
  let bytes ← attempt (files.read path) (.document path)
  let text ← match documentText bytes with
    | some text => pure text
    | none => throw (.malformed path .malformed)
  let doc ← liftError (Document.parse text) (.malformed path)
  let options ← liftError manifest.options .parameter
  let values ← liftError doc.values .values
  let (result, graph) := compileDocument doc manifest options values (← get).graph
  modify fun s => { s with graph }
  liftError result (.rebuild path)

def compileRequest (manifest : Manifest) (text : String) : Except ParameterError CompileRequest := do
  return ⟨text, ← manifest.values, manifest.required, manifest.workgroup⟩

def compileRemote (files : FileAccess m) (network : Network m) (url path : String)
    (manifest : Manifest) : CommandM m Program := do
  let bytes ← attempt (files.read path) .file
  let text ← match documentText bytes with
    | some text => pure text
    | none => throw (.malformed path .malformed)
  let request ← liftError (compileRequest manifest text) .parameter
  let response ← attempt (network.compile url request) (.remote url)
  return response.artifact

def fetchRemote (network : Network m) (address text : String) : CommandM m Program := do
  if address.isEmpty then throw .needsRemote
  let digest ← liftError (Digest.parse text) .digest
  attempt (network.fetch (withoutScheme address) digest) (.remote address)

/-! ## what is written -/

def writeFile (files : FileAccess m) (path : String) (bytes : List UInt8) : CommandM m Unit := do
  attempt (files.makeFolders (Path.parent path)) .file
  attempt (files.write path bytes) (.write path)

/-- the source and the artifact; at one path only the artifact is written -/
def writeArtifact (files : FileAccess m) (p : Program) (source metadata : String) :
    CommandM m Unit := do
  let bytes ← liftError p.marshal .artifact
  if source != metadata then writeFile files source p.source.toUTF8.toList
  writeFile files metadata bytes

def stageText (size : UInt32) (workgroup : Int) (d : Dispatch) : String :=
  let grid := (d.grid size workgroup).toOption.getD ⟨0, 0, 0⟩
  s!"{d.name}({grid.x.toNat}x{grid.y.toNat})"

def scheduleLines (p : Program) (size : UInt32) : List String :=
  (p.schedule.zipIdx.map fun (stage, i) =>
    s!"stage {i}: " ++ " ".intercalate (stage.dispatches.map (stageText size p.workgroup))) ++
  p.buffers.map fun b => s!"buffer {b.name} {b.shape.name} [{b.dispatch}]"

/-! ## the command -/

def serve (address : String) : CommandM m Unit :=
  match splitAddress address with
  | .error fault => throw (.listen address fault)
  | .ok _ => throw (.unheard address)

def orGiven (given default : String) : String := if given.isEmpty then default else given

def obtain (files : FileAccess m) (network : Network m) (i : Invocation) (manifest : Manifest) :
    CommandM m Program :=
  let graph := orGiven i.graph manifest.graphPath
  if !i.fetch.isEmpty then fetchRemote network i.remote i.fetch
  else if !i.remote.isEmpty then compileRemote files network i.remote graph manifest
  else compileLocal files graph manifest

def remember (files : FileAccess m) (i : Invocation) (cache : Option TableStore) (p : Program) :
    CommandM m Unit := do
  match cache with
  | some store =>
    if i.fetch.isEmpty && i.remote.isEmpty then
      match store.put (some (.ofProgram p)) with
      | .ok store => let _ ← (files.write store.path store.toBytes : m _)
      | .error _ => pure ()
  | none => pure ()

def runProject (files : FileAccess m) (network : Network m) (cwd : String) (i : Invocation) :
    CommandM m Unit := do
  let manifest ← projectManifest files cwd i.config
  let cache ← if manifest.cachePath.isEmpty then pure none
    else some <$> openCache files manifest.cachePath
  if i.serve then serve (orGiven i.address manifest.address)
  else
    let p ← obtain files network i manifest
    remember files i cache p
    let source := orGiven i.source manifest.sourcePath
    writeArtifact files p source (orGiven i.metadata manifest.metadataPath)
    print s!"{p.digest.short} -> {source}"
    if i.schedule then (scheduleLines p manifest.size).forM print

def run (files : FileAccess m) (network : Network m) (cwd : String) (i : Invocation) :
    CommandM m Unit := do
  if i.listOps then Document.opNames.forM print
  else if i.definition then
    modify fun s => { s with output := s.output ++ Service.artifactDefinition.text }
  else runProject files network cwd i

end

end Terrain.Command
