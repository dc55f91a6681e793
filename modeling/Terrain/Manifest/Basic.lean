import Terrain.Compile.Context
import Terrain.FileTree
import Terrain.Manifest.Schema
import Terrain.Segment
import Terrain.Toml.Table

/-!
# Manifests

The settings of a project: its name, the volume and seed that its segments have, values for the
parameters of its graph, and where files are.  A field that is not given, or given as nothing, has
a default.  Paths are seen from the folder of the manifest.

A text becomes a manifest in three steps: it is read, the schema admits it, and every number fits
the field that holds it.  Each of them can refuse it.
-/

namespace Terrain

open Number (Single Double)

structure Manifest where
  folder : String
  name : String
  version : String
  size : UInt32
  scale : Single
  workgroup : Int
  required : Option (List String)
  seed : Seed
  parameters : List (String × Setting)
  graph : String
  source : String
  metadata : String
  cache : String
  address : String

inductive ManifestError where
  | unreadable (path : String) (e : FileError)
  | malformed
  | refused
  | misfit
deriving DecidableEq, Repr

def ManifestError.message : ManifestError → String
  | unreadable path e => s!"cannot read {path}: {e.message}"
  | malformed => "parse error"
  | refused => "invalid manifest"
  | misfit => "value out of range"

structure ParameterError where
  name : String
  reason : LiteralError
deriving DecidableEq, Repr

def ParameterError.message (e : ParameterError) : String :=
  if e.name.isEmpty then "configuration: " ++ e.reason.message
  else s!"configuration: {Text.quoted e.name}: {e.reason.message}"

namespace Manifest

def fileName : String := "voxgraph.toml"

/-! ## fields of a table that the schema admits -/

def field (table : Setting) (name : String) : Setting :=
  match table with
  | .table entries =>
    ((entries.find? fun (k, _) => Rule.fieldName k == name).map Prod.snd).getD .null
  | _ => .null

/-- a text; none is the empty one, and a point in time is no text -/
def textField (table : Setting) (name : String) : Except ManifestError String :=
  match field table name with
  | .text s => .ok s
  | .null => .ok ""
  | _ => .error .misfit

def wholeField (table : Setting) (name : String) : Int :=
  match field table name with
  | .integer n => n
  | _ => 0

/-- the whole numbers that a single number holds without a gap stay below this -/
def maxExactWhole : Int := 16777215

def singleField (table : Setting) (name : String) : Except ManifestError Single :=
  match field table name with
  | .integer n => if n.natAbs ≤ maxExactWhole then .ok (.ofInt n) else .error .misfit
  | .real x => if x.isInfinite || x.datum.overflowsSingle then .error .misfit else .ok (.ofDouble x)
  | _ => .ok .zero

def seedWord : Setting → Except ManifestError Int32
  | .integer n => if -2 ^ 31 ≤ n ∧ n < 2 ^ 31 then .ok (.ofInt n) else .error .misfit
  | _ => .ok 0

def tripleField (table : Setting) (name : String) : Except ManifestError (Triple Int32) :=
  match field table name with
  | .list [x, y, z] => return ⟨← seedWord x, ← seedWord y, ← seedWord z⟩
  | _ => .ok ⟨0, 0, 0⟩

def namesField (table : Setting) (name : String) : Except ManifestError (Option (List String)) :=
  match field table name with
  | .list items => some <$> items.mapM fun item =>
      match item with
      | .text s => .ok s
      | _ => .error .misfit
  | _ => .ok none

def entriesField (table : Setting) (name : String) : List (String × Setting) :=
  match field table name with
  | .table entries => entries.map fun (k, v) => (Rule.fieldName k, v)
  | _ => []

/-! ## defaults -/

def orElse (s default : String) : String := if s.isEmpty then default else s

def withDefaults (m : Manifest) : Manifest :=
  let name := orElse m.name (Path.base m.folder)
  { m with
    name
    size := if m.size = 0 then 32 else m.size
    scale := if m.scale.isZero then .one else m.scale
    workgroup := if m.workgroup = 0 then Compile.Options.defaultWorkgroup else m.workgroup
    graph := orElse m.graph "graph.yaml"
    source := orElse m.source (name ++ ".wgsl")
    metadata := orElse m.metadata (name ++ ".cbor")
    address := orElse m.address "localhost:7411" }

def blank (folder : String) : Manifest :=
  ⟨folder, "", "", 0, .zero, 0, none, default, [], "", "", "", "", ""⟩

def byDefault (folder : String) : Manifest := (blank folder).withDefaults

/-! ## reading -/

def ofTable (folder : String) (table : Setting) : Except ManifestError Manifest := do
  let project := field table "project"
  let volume := field table "volume"
  let seed := field table "seed"
  let output := field table "output"
  return { folder
           name := ← textField project "name"
           version := ← textField project "version"
           size := UInt32.ofInt (wholeField volume "size")
           scale := ← singleField volume "scale"
           workgroup := wholeField volume "workgroup"
           required := ← namesField volume "required"
           seed := ⟨← tripleField seed "permutation", ← tripleField seed "modulo"⟩
           parameters := entriesField table "parameters"
           graph := ← textField (field table "graph") "path"
           source := ← textField output "source"
           metadata := ← textField output "metadata"
           cache := ← textField (field table "cache") "path"
           address := ← textField (field table "server") "addr" }

def parse (folder text : String) : Except ManifestError Manifest :=
  match Toml.parse? text with
  | none => .error .malformed
  | some table =>
    if schema.admits table then (ofTable folder table).map withDefaults else .error .refused

variable {m : Type → Type} [Monad m]

/-- reads the manifest in a folder, which is seen from `cwd` -/
def load (files : FileAccess m) (cwd folder : String) : m (Except ManifestError Manifest) := do
  let path := Path.join folder fileName
  match ← files.read path with
  | .error e => return .error (.unreadable path e)
  | .ok bytes =>
    match String.fromUTF8? (ByteArray.mk bytes.toArray) with
    | none => return .error .malformed
    | some text => return parse (Path.resolve cwd folder) text

def findAmong (files : FileAccess m) (cwd : String) :
    List String → m (Option (Except ManifestError Manifest))
  | [] => return none
  | folder :: rest => do
    if ← files.isThere (Path.join folder fileName) then return some (← load files cwd folder)
    else findAmong files cwd rest

def find (files : FileAccess m) (cwd folder : String) :
    m (Option (Except ManifestError Manifest)) :=
  findAmong files cwd (Path.ancestors (Path.resolve cwd folder))

/-! ## what a project uses -/

/-- a path that is empty stays so -/
def place (m : Manifest) (path : String) : String :=
  if path.isEmpty || Path.isAbsolute path then path else Path.join m.folder path

def graphPath (m : Manifest) : String := m.place m.graph
def sourcePath (m : Manifest) : String := m.place m.source
def metadataPath (m : Manifest) : String := m.place m.metadata
def cachePath (m : Manifest) : String := m.place m.cache

def valuesOf (parameters : List (String × Setting)) : Except ParameterError Bindings :=
  parameters.mapM fun (name, s) =>
    match s.toValue with
    | .ok v => .ok (name, v)
    | .error reason => .error ⟨name, reason⟩

def values (m : Manifest) : Except ParameterError Bindings := valuesOf m.parameters

def options (m : Manifest) : Except ParameterError Compile.Options := do
  return ⟨← m.values, m.required, m.workgroup⟩

def segment (m : Manifest) (offset : Triple Single) : Segment :=
  ⟨offset, m.scale, m.size, m.seed⟩

end Manifest
end Terrain
