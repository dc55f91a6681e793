import Terrain.Compile.Term
import Terrain.Graph.Validate

/-!
# Generating code for nodes

`emit` returns the symbol that holds a node's value in the current function.  A node met for the
first time there folds its structure into the stream, has its inputs generated, and then appends
the lines that compute it; a node met again folds a reference to its symbol.

Every rule is written over a `visit` that generates another node, and `emit` closes the knot with
a bound on the depth of the walk.  A walk over an acyclic graph is no deeper than the graph has
nodes.  One that runs through a cycle of references ends at the second visit of a cache, at most
one round later, or not at all.
-/

namespace Terrain.Compile

open Kernel Hash

abbrev Visit := NodeId → EmitM Symbol

/-! ## operands -/

def emitInputsFrom (visit : Visit) (n : Node) : Nat → List (Option Wire) → EmitM (List Symbol)
  | _, [] => return []
  | i, none :: _ => refuse (.atNode n (.inputMissing i))
  | i, some w :: rest => do
    let s ← visit w.source
    let more ← emitInputsFrom visit n (i + 1) rest
    return s :: more

/-- generates all inputs, then reports what is wrong with the node's own shape -/
def emitInputs (visit : Visit) (n : Node) : EmitM (List Symbol) := do
  let symbols ← emitInputsFrom visit n 0 n.inputs
  match n.typing with
  | .error fault => refuse (.shapeAt n fault)
  | .ok _ => return symbols

/-! ## parameters -/

def addParameter (name : String) (v : Value) (injected : Bool) : EmitM Nat := do
  let slot := (← get).parameters.length
  modify fun c => { c with parameters := c.parameters ++ [⟨slot, name, v.shape, v, injected⟩] }
  return slot

def emitConstant (n : Node) (v : Value) : EmitM Symbol := do
  if v.shape.isDefined then
    match (← get).constantSlots.lookup n.id with
    | some slot => return .param slot v.shape
    | none =>
      let slot ← addParameter "" v false
      modify fun c => { c with constantSlots := (n.id, slot) :: c.constantSlots }
      return .param slot v.shape
  else refuse (.shapeAt n .noConstantShape)

def injectedSlot (name : String) (v : Value) : EmitM Nat := do
  let c ← get
  match c.injectedSlots.lookup name with
  | some slot =>
    let first := ((c.parameters[slot]?).map Parameter.shape).getD .none
    if first = v.shape then return slot
    else refuse (.configuration name (.bothShapes first v.shape))
  | none =>
    let slot ← addParameter name v true
    modify fun c => { c with injectedSlots := (name, slot) :: c.injectedSlots }
    return slot

def emitInject (name : String) (shape : Shape) (fallback : Option Value) : EmitM Symbol := do
  if isIdentifier name then
    let bound := (← get).options.bindings.lookup name
    match bound.or fallback with
    | none => refuse (.configuration name .unbound)
    | some v =>
      if v.shape = shape then
        return .param (← injectedSlot name v) shape
      else refuse (.configuration name (.boundShape v.shape shape))
  else refuse (.configuration name .parameterName)

/-! ## nested functions -/

structure Nested where
  /-- call sites of one key share one definition -/
  key : String
  stem : String
  result : Shape

def nestedArguments : Nat → List Wire → List Argument
  | _, [] => [⟨"out_value", .none, true⟩]
  | i, w :: rest => ⟨s!"in_{i}", w.shape, false⟩ :: nestedArguments (i + 1) rest

/-- the inputs of a nested function at hand inside it, a later one of the same node first -/
def nestedSymbols : Nat → List Wire → List (NodeId × Symbol) → List (NodeId × Symbol)
  | _, [], found => found
  | i, w :: rest, found => nestedSymbols (i + 1) rest ((w.source, .var (.input i)) :: found)

def nestedBody (arity : Nat) (body : EmitM Expr) : EmitM Unit := do
  (List.range arity).forM fun i => line ⟨0, .letVar (.copy i) (.var (.input i))⟩
  let e ← body
  line ⟨0, .store "out_value" e⟩

/-- defines a nested function, which joins the program once its body is complete -/
def defineNested (caller : ScopeId) (spec : Nested) (inputs : List Wire) (body : EmitM Expr) :
    EmitM ScopeId := do
  let n ← fresh
  let c ← get
  let outer := c.scope caller
  let id ← openScope
    { name := s!"{spec.stem}_{n}"
      args := (nestedArguments 0 inputs).map fun a =>
        if a.output then ⟨a.name, spec.result, true⟩ else a
      depth := outer.depth + 1
      dispatch := outer.dispatch
      symbols := nestedSymbols 0 inputs [] }
  inScope id (nestedBody inputs.length body)
  modify fun c => { c with found := c.found ++ [id], nested := (spec.key, id) :: c.nested }
  return id

def visitWire (visit : Visit) : Option Wire → EmitM Symbol
  | some w => visit w.source
  | none => refuse (.structural none .noNode)

/-- calls a nested function, defining it at its first call; a callee is pushed below its caller -/
def callNested (spec : Nested) (inputs : List Wire) (body : EmitM Expr) (symbols : List Symbol) :
    EmitM Symbol := do
  let c ← get
  let caller := c.current
  let callee ← match c.nested.lookup spec.key with
    | some id =>
      fold ([Tag.scopeCall] ++ Token.str (c.scope id).name)
      let depth := (c.scope caller).depth + 1
      modify fun c => c.modifyScope id fun s =>
        if s.depth < depth then { s with depth := depth } else s
      pure id
    | none =>
      fold ([Tag.scope] ++ Token.str spec.key)
      defineNested caller spec inputs body
  let n ← fresh
  let name := ((← get).scope callee).name
  modify fun c => c.modifyScope caller fun s =>
    { (s.push ⟨0, .declare (.result n) spec.result⟩).push ⟨0, .call name symbols (.result n)⟩ with
      bound := s.bound + 1 }
  return .var (.result n)

/-- generates the inputs of a nested function where it is called, then calls it -/
def emitNested (visit : Visit) (spec : Nested) (inputs : List (Option Wire)) (body : EmitM Expr) :
    EmitM Symbol := do
  let symbols ← inputs.mapM (visitWire visit)
  callNested spec (inputs.filterMap id) body symbols

def templateBody (t : Template) : EmitM Expr := do
  t.lines.forM line
  return t.result

def maxOctaves : Int := 16

/-! ## caches -/

/-- pushes a dispatch, and what it reads, at least to a depth; `fuel` bounds the chain of reads -/
def raiseDepth : Nat → DispatchId → Int → Context → Context
  | 0, _, _, c => c
  | fuel + 1, id, depth, c =>
    let d := c.entry id
    if depth ≤ d.depth then c
    else
      d.reads.foldl (fun c child => raiseDepth fuel child (depth + 1) c)
        (c.modifyEntry id fun d => { d with depth := depth })

def newDispatch (name : String) (dims : Dims) (depth : Int) (scope : ScopeId) : EmitM DispatchId := do
  let id := (← get).entries.size
  modify fun c =>
    { c with
      entries := c.entries.push ⟨name, depth, dims, 0, [], scope, []⟩
      dispatches := c.dispatches ++ [id] }
  modify fun c => c.modifyScope scope fun s => { s with dispatch := some id }
  fold ([Tag.dispatch] ++ Token.str name ++ [dims.count])
  return id

def addRead (reader source : DispatchId) : EmitM Unit :=
  modify fun c => c.modifyEntry reader fun d => { d with reads := d.reads ++ [source] }

def addOutput (id : DispatchId) (target : String) (shape : Shape) : EmitM Unit :=
  modify fun c =>
    let d := c.entry id
    (c.addBuffer target shape d).modifyEntry id fun d =>
      { d with outputs := d.outputs ++ [⟨target, shape, "buf_" ++ target⟩] }

def cacheDispatch (visit : Visit) (n : Node) (value : NodeId) (reduction : Int) :
    EmitM DispatchId := do
  let c ← get
  match c.currentScope.dispatch with
  | none => refuse (.atNode n .cacheOutside)
  | some reader =>
    let depth := (c.entry reader).depth + 1
    match c.caches.lookup n.id with
    | some id =>
      modify (raiseDepth (c.entries.size + 1) id depth)
      addRead reader id
      fold ([Tag.backRef] ++ Token.str (c.entry id).name)
      return id
    | none =>
      let name := s!"cache_{← fresh}"
      let scope ← openScope (placedScope name [⟨"out_value", n.shape, true⟩])
      modify fun c => { c with found := c.found ++ [scope] }
      let id ← newDispatch name .two depth scope
      modify fun c => c.modifyEntry id fun d => { d with reduction := reduction }
      fold (Token.u16 (UInt16.ofInt reduction))
      addRead reader id
      modify fun c => { c with caches := (n.id, id) :: c.caches }
      inScope scope do
        let s ← visit value
        line ⟨0, .store "out_value" (.sym s)⟩
      addOutput id name n.shape
      return id

def emitCache (visit : Visit) (n : Node) (reduction : Int) : EmitM Symbol := do
  if reduction < 0 ∨ maxReduction < reduction then
    refuse (.configuration "reduction" (.range reduction 0 maxReduction))
  match n.typing, n.inputs with
  | .error fault, _ => refuse (.shapeAt n fault)
  | .ok _, [some w] =>
    if (← get).currentScope.hasPosition then
      let id ← cacheDispatch visit n w.source reduction
      match ((← get).entry id).outputs with
      | [] => throw (.fault (.index 0 0))
      | output :: _ =>
        require .cacheIndex
        declare n.shape (.sample output.buffer
          (.call2 (.routine .cacheIndex) (.var .position) (.literal s!"{reduction}u")))
    else refuse (.atNode n .cacheUnplaced)
  | .ok _, _ => throw (.fault .missingNode)

/-! ## nodes -/

def emitOp (visit : Visit) (n : Node) : EmitM Symbol := do
  match n.op with
  | .unsupported _ reason => refuse (.atNode n (.unconverted reason))
  | .position =>
    let s := (← get).currentScope
    if s.hasPosition then return .var .position
    else refuse (.atNode n (.positionUnavailable s.name))
  | .constant v => emitConstant n v
  | .inject name shape fallback => emitInject name shape fallback
  | .ref name shape =>
    match n.inputs with
    | some w :: _ =>
      let s ← visit w.source
      if w.shape = shape then return s
      else refuse (.shapeAt n (.reference name shape w.shape))
    | _ => refuse (.atNode n (.dangling name))
  | .cast target =>
    let symbols ← emitInputs visit n
    match symbols with
    | [s] =>
      if n.inputShape 0 = target then return s
      else declare n.shape (term n [.sym s])
    | _ => throw (.fault .missingNode)
  | .distance metric =>
    let symbols ← emitInputs visit n
    match symbols with
    | [a, b] =>
      let s := n.inputShape 0
      let delta ← declare s (.sub (.sym a) (.sym b))
      declare n.shape (.metric metric (.sym delta) s)
    | _ => throw (.fault .missingNode)
  | .fractal kind octaves =>
    let _ ← emitInputs visit n
    if octaves < 1 ∨ maxOctaves < octaves then
      refuse (.configuration "octaves" (.range octaves 1 maxOctaves))
    let point := n.inputShape 0
    require (noiseRoutine kind point)
    emitNested visit ⟨nestedKey n, "vg_fractal", .float⟩ n.inputs
      (templateBody (fractalTemplate kind point octaves))
  | .cellular metric feature =>
    let _ ← emitInputs visit n
    let point := n.inputShape 0
    require (scatterRoutine point)
    emitNested visit ⟨nestedKey n, "vg_cellular", .float⟩ n.inputs
      (templateBody (cellularTemplate metric feature point))
  | .cache reduction => emitCache visit n reduction
  | _ =>
    let symbols ← emitInputs visit n
    (termRoutines n).forM require
    declare n.shape (term n (symbols.map Expr.sym))

def emitNode (visit : Visit) (n : Node) : EmitM Symbol := do
  let c ← get
  let scope := c.current
  match c.currentScope.symbols.lookup n.id with
  | some s =>
    fold ([Tag.backRef] ++ Token.str s.text)
    return s
  | none =>
    fold n.structureBytes
    if n.structureComplete then
      let s ← emitOp visit n
      remember scope n.id s
      return s
    else throw (.fault .missingNode)

/-- generates a node, going at most `fuel` nodes deep -/
def emitWithin (g : Graph) : Nat → Visit
  | 0, _ => throw (.fault .tooDeep)
  | fuel + 1, id =>
    match g.get? id with
    | none => refuse (.structural none .noNode)
    | some n => emitNode (emitWithin g fuel) n

def emit (g : Graph) : Visit := emitWithin g (2 * g.size + 2)

end Terrain.Compile
