import Terrain.Graph.Structure
import Terrain.Kernel.Template
import Terrain.Program

/-!
# The state of a compilation

One compilation owns a context.  Functions and dispatches live in tables and are named by their
place, so that the scope stack, the order of discovery and the sorted orders are lists of places.
A symbol that is bound in a function is kept in that function: a node is generated once per
function and shared there, and only there.

Steps are `EmitM` actions.  A step that fails leaves the state as it was when it failed.
-/

namespace Terrain.Compile

open Kernel Hash

abbrev ScopeId := Nat
abbrev DispatchId := Nat

/-! ## functions -/

structure Argument where
  name : String
  shape : Shape
  output : Bool
deriving DecidableEq, Repr

def Argument.text (a : Argument) : String :=
  if a.output then s!"{a.name}: ptr<function, {a.shape.typeName}>"
  else s!"{a.name}: {a.shape.typeName}"

structure Scope where
  name : String
  args : List Argument := []
  lines : Array Indented := #[]
  /-- callees are deeper than their callers -/
  depth : Int := 0
  /-- how many symbols the body declares for nodes -/
  bound : Nat := 0
  hasPosition : Bool := false
  dispatch : Option DispatchId := none
  symbols : List (NodeId × Symbol) := []
deriving Repr

instance : Inhabited Scope := ⟨⟨"", [], #[], 0, 0, false, none, []⟩⟩

namespace Scope

def signature (s : Scope) : String :=
  s!"fn {s.name}(" ++ ", ".intercalate (s.args.map Argument.text) ++ ")"

def push (s : Scope) (l : Indented) : Scope := ⟨s.name, s.args, s.lines.push l, s.depth, s.bound,
  s.hasPosition, s.dispatch, s.symbols⟩

end Scope

/-! ## dispatches -/

structure Output where
  target : String
  shape : Shape
  buffer : String
deriving DecidableEq, Repr

structure Entry where
  name : String
  depth : Int
  dims : Dims
  reduction : Int
  outputs : List Output
  scope : ScopeId
  reads : List DispatchId
deriving DecidableEq, Repr

instance : Inhabited Entry := ⟨⟨"", 0, .two, 0, [], 0, []⟩⟩

namespace Entry

def text (d : Entry) : String :=
  s!"{d.name}(depth={d.depth}, {d.dims.name}, r={d.reduction})"

/-- a list of a dispatch's record; an empty one is absent -/
def listed (xs : List String) : Option (List String) := if xs.isEmpty then none else some xs

def record (d : Entry) : Dispatch where
  name := d.name
  depth := d.depth
  dims := d.dims
  reduction := d.reduction
  outputs := listed (d.outputs.map Output.target)
  buffers := listed (d.outputs.map Output.buffer)

end Entry

/-! ## options -/

structure Options where
  bindings : Bindings
  /-- the outputs that must be bound; absent means density and color -/
  required : Option (List String)
  workgroup : Int

instance : Inhabited Options := ⟨⟨[], none, 0⟩⟩

namespace Options

def defaultWorkgroup : Int := 64
def maxWorkgroup : Int := 1024

def requiredOutputs (o : Options) : List String := o.required.getD ["density", "color"]

def workgroupSize (o : Options) : Int := if o.workgroup ≤ 0 then defaultWorkgroup else o.workgroup

end Options

/-! ## contexts -/

inductive Phase where
  | created | parsing | parsed | sorted | emitted | failed
deriving DecidableEq, Repr

def Phase.name : Phase → String
  | created => "created" | parsing => "parsing" | parsed => "parsed" | sorted => "sorted"
  | emitted => "emitted" | failed => "failed"

/-- phases are numbered in the order they are passed -/
def Phase.nameOfCode (code : UInt8) : String :=
  match [created, parsing, parsed, sorted, emitted, failed][code.toNat]? with
  | some p => p.name
  | none => s!"state({code.toNat})"

structure Context where
  options : Options
  phase : Phase
  /-- every function ever opened; the root is the first -/
  scopes : Array Scope
  stack : List ScopeId
  /-- the functions of the program in order of discovery -/
  found : List ScopeId
  arranged : Option (List ScopeId)
  /-- nested functions by the structure they share -/
  nested : List (String × ScopeId)
  entries : Array Entry
  /-- the dispatches in order of discovery, deepest first once the graph is parsed -/
  dispatches : List DispatchId
  caches : List (NodeId × DispatchId)
  buffers : List Buffer
  stream : Stream
  names : Nat
  parameters : List Parameter
  constantSlots : List (NodeId × Nat)
  injectedSlots : List (String × Nat)
  routines : List Routine

def rootId : ScopeId := 0

def positionArgument : Argument := ⟨"position", .vec3, false⟩

def placedScope (name : String) (outputs : List Argument) : Scope where
  name := "vg_" ++ name
  args := positionArgument :: outputs
  hasPosition := true
  symbols := [(Graph.positionId, .var .position)]

namespace Context

def new (options : Options) : Context where
  options := options
  phase := .created
  scopes := #[placedScope mainDispatch []]
  stack := []
  found := [rootId]
  arranged := none
  nested := []
  entries := #[]
  dispatches := []
  caches := []
  buffers := []
  stream := .empty
  names := 0
  parameters := []
  constantSlots := []
  injectedSlots := []
  routines := []

def current (c : Context) : ScopeId := c.stack.headD rootId

def scope (c : Context) (id : ScopeId) : Scope := c.scopes.getD id default

def currentScope (c : Context) : Scope := c.scope c.current

def entry (c : Context) (id : DispatchId) : Entry := c.entries.getD id default

def modifyScope (c : Context) (id : ScopeId) (f : Scope → Scope) : Context :=
  { c with scopes := c.scopes.modify id f }

def modifyEntry (c : Context) (id : DispatchId) (f : Entry → Entry) : Context :=
  { c with entries := c.entries.modify id f }

def fold (c : Context) (token : List UInt8) : Context := { c with stream := c.stream.fold token }

def writtenScopes (c : Context) : List ScopeId := c.arranged.getD c.found

def addBuffer (c : Context) (name : String) (shape : Shape) (d : Entry) : Context :=
  { c with buffers := c.buffers ++
      [{ name, symbol := "buf_" ++ name, group := 1, binding := c.buffers.length, shape,
         dims := d.dims, reduction := d.reduction, dispatch := d.name }] }

end Context

/-! ## steps -/

abbrev EmitM := ExceptT Failure (StateM Context)

def refuse {α : Type} (e : CompileError) : EmitM α := throw (.refused e)

def fold (token : List UInt8) : EmitM Unit := modify (·.fold token)

def fresh : EmitM Nat := do
  let n := (← get).names + 1
  modify fun c => { c with names := n }
  return n

def line (l : Indented) : EmitM Unit :=
  modify fun c => c.modifyScope c.current (·.push l)

def declare (shape : Shape) (e : Expr) : EmitM Symbol := do
  let n ← fresh
  modify fun c => c.modifyScope c.current fun s =>
    { s.push ⟨0, .bind (.bound n) shape e⟩ with bound := s.bound + 1 }
  return .var (.bound n)

def require (r : Routine) : EmitM Unit :=
  modify fun c => { c with routines := kernelLibrary.require c.routines r }

def requireNamed (name : String) : EmitM Unit :=
  match Routine.ofName? name with
  | some r => require r
  | none => throw (.fault (.unknownRoutine name))

def openScope (s : Scope) : EmitM ScopeId := do
  let id := (← get).scopes.size
  modify fun c => { c with scopes := c.scopes.push s }
  return id

def pushScope (id : ScopeId) : EmitM Unit := modify fun c => { c with stack := id :: c.stack }

def popScope : EmitM Unit := modify fun c => { c with stack := c.stack.tail }

/-- a step that is followed by `undo` when it is refused -/
def onRefusal {α : Type} (body : EmitM α) (undo : EmitM Unit) : EmitM α :=
  tryCatch body fun
    | .refused e => do undo; throw (.refused e)
    | .fault f => throw (.fault f)

/-- runs a body inside a function.  When the body is refused the function is left again. -/
def inScope {α : Type} (id : ScopeId) (body : EmitM α) : EmitM α := do
  pushScope id
  let a ← onRefusal body popScope
  popScope
  return a

def remember (id : ScopeId) (node : NodeId) (s : Symbol) : EmitM Unit :=
  modify fun c => c.modifyScope id fun f => { f with symbols := (node, s) :: f.symbols }

end Terrain.Compile
