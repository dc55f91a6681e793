import Terrain.Graph.Basic

/-!
# Causes of failure

A compilation stops for one of the reasons below.  What is wrong with the graph itself, with the
shapes in it, and with the configuration are kept apart, since callers treat them differently.
A `Fault` is not a verdict on the input: the step itself could not be carried out.
-/

namespace Terrain

open Text

inductive StructureFault where
  | noNode
  | inputMissing (i : Nat)
  | cycle (labels : List String)
  | literal (display : String) (reason : LiteralError)
  | unconverted (reason : LiteralError)
  | dangling (name : String)
  | positionUnavailable (scope : String)
  | cacheUnplaced
  | cacheOutside
  | reservedOutput (target : String)
  | repeatedOutput (target : String)
  | unboundOutput (target : String)
  | missingOutput (target : String)
deriving DecidableEq, Repr

/-- the names of cache dispatches and their buffers start so, and those of outputs may not -/
def cacheStem : String := "cache_"

def StructureFault.message : StructureFault → String
  | noNode => "nil node"
  | inputMissing i => s!"input {i} is nil"
  | cycle labels => "cycle: " ++ " -> ".intercalate labels
  | literal display reason => s!"unsupported literal {display}: {reason.message}"
  | unconverted reason => s!"unsupported literal: {reason.message}"
  | dangling name => s!"dangling reference {quoted name}"
  | positionUnavailable scope => s!"position is not available in scope {scope}"
  | cacheUnplaced => "cache sampled where position is not available"
  | cacheOutside => "cache used outside a dispatch"
  | reservedOutput target =>
    s!"output {quoted target} uses the reserved prefix {quoted cacheStem}"
  | repeatedOutput target => s!"output {quoted target} is bound twice"
  | unboundOutput target => s!"output {quoted target} has no node"
  | missingOutput target => s!"missing required output {quoted target}"

inductive ConfigFault where
  | targetName
  | parameterName
  | unbound
  | boundShape (bound parameter : Shape)
  | bothShapes (first second : Shape)
  | range (n : Int) (low high : Int)
  | invocations (dispatch : String) (count size : Nat)
  | workgroups (dispatch : String) (x y size : Nat)
  | text (reason : String)
deriving DecidableEq, Repr

def ConfigFault.message : ConfigFault → String
  | targetName => "output target is not an identifier"
  | parameterName => "parameter name is not an identifier"
  | unbound => "required injected parameter is not bound"
  | boundShape bound parameter =>
    s!"bound value is {bound.name}, parameter is {parameter.name}"
  | bothShapes first second => s!"parameter used as both {first.name} and {second.name}"
  | range n low high => s!"{n} is outside {low}..{high}"
  | invocations dispatch count size =>
    s!"{dispatch} needs {count} invocations for size {size}"
  | workgroups dispatch x y size =>
    s!"{dispatch} needs {x}x{y} workgroups for size {size}"
  | text reason => reason

inductive CompileError where
  | structural (node : Option (NodeId × String)) (fault : StructureFault)
  | shape (id : NodeId) (kind : String) (fault : ShapeFault)
  | configuration (name : String) (fault : ConfigFault)
  | alreadyUsed
  | notParsed
  | openScopes (count : Nat)
deriving DecidableEq, Repr

namespace CompileError

def atNode (n : Node) (fault : StructureFault) : CompileError :=
  .structural (some (n.id, n.kind)) fault

def shapeAt (n : Node) (fault : ShapeFault) : CompileError := .shape n.id n.kind fault

def message : CompileError → String
  | .structural none fault => "graph structure: " ++ fault.message
  | .structural (some (id, kind)) fault =>
    s!"graph structure: node #{id} ({kind}): {fault.message}"
  | .shape id kind fault => s!"type shape: node #{id} ({kind}): {fault.message}"
  | .configuration name fault =>
    if name.isEmpty then "configuration: " ++ fault.message
    else s!"configuration: {quoted name}: {fault.message}"
  | .alreadyUsed => "compilation context already used"
  | .notParsed => "compilation context has not been parsed"
  | .openScopes n => s!"compiler: scope stack not empty after parse ({n} open)"

end CompileError

inductive Blame where
  | graph
  | shape
  | configuration
  /-- nothing that the graph or its options say -/
  | other
deriving DecidableEq, Repr

def CompileError.blame : CompileError → Blame
  | .structural _ _ => .graph
  | .shape _ _ _ => .shape
  | .configuration _ _ => .configuration
  | _ => .other

inductive Fault where
  | missingNode
  | index (i length : Nat)
  | slice (low : Int) (length : Nat)
  | divisionByZero
  | unknownRoutine (name : String)
  /-- the bound on the depth of a walk was reached; no acyclic graph reaches it -/
  | tooDeep
deriving DecidableEq, Repr

def Fault.message : Fault → String
  | missingNode => "runtime error: invalid memory address or nil pointer dereference"
  | index i n => s!"runtime error: index out of range [{i}] with length {n}"
  | slice low n =>
    if low < 0 then s!"runtime error: slice bounds out of range [{low}:]"
    else s!"runtime error: slice bounds out of range [{low}:{n}]"
  | divisionByZero => "runtime error: integer divide by zero"
  | unknownRoutine name => s!"compiler: unknown library routine {name}"
  | tooDeep => "runtime error: stack overflow"

inductive Failure where
  | refused (e : CompileError)
  | fault (f : Fault)
deriving DecidableEq, Repr

namespace Failure

def message : Failure → String
  | refused e => e.message
  | fault f => f.message

def blame : Failure → Blame
  | refused e => e.blame
  | fault _ => .other

end Failure
end Terrain
