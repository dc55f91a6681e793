import Terrain.Error
import Terrain.Setting

/-!
# Graph documents

A document names the nodes of a graph.  An input of a node is the name of another node or a
literal; an output is bound to a node by name.  The name `position` always means the world
position, whatever else carries it.
-/

namespace Terrain

namespace Document

inductive Input where
  | reference (name : String)
  | literal (line : Nat) (setting : Setting)
  | unreadable (line : Nat)
deriving Repr

/-- a named node.  Only the attributes that its operation reads mean anything. -/
structure NodeSpec where
  op : String
  inputs : List Input
  mask : String
  kind : String
  metric : String
  feature : String
  octaves : Int
  reduction : Int
  shape : String
  name : String
  value : Setting
deriving Repr

def NodeSpec.empty : NodeSpec := ⟨"", [], "", "", "", "", 0, 0, "", "", .null⟩

def positionName : String := "position"

end Document

structure Document where
  name : String
  parameters : List (String × Setting)
  nodes : List (String × Document.NodeSpec)
  outputs : List (String × String)
deriving Repr

namespace Document

def empty : Document := ⟨"", [], [], []⟩

/-! ## outputs -/

def wellKnown : List String := ["density", "color", "metallic", "smoothness"]

/-- the targets of a document: the well-known ones, then the others by name -/
def targets (doc : Document) : List String :=
  let named := doc.outputs.map (·.1)
  wellKnown.filter named.contains ++
    (named.filter (!wellKnown.contains ·)).mergeSort (fun a b => decide (a ≤ b))

/-! ## failures -/

inductive AttributeFault where
  | noMask
  | noName
  | unknown (what text : String)
  | value (reason : LiteralError)
  | conversion (source target : Shape)
  | notWhole (x : Number.Double)
  | outside (x : Number.Double)
deriving DecidableEq, Repr

open Text in
def AttributeFault.message : AttributeFault → String
  | noMask => "swizzle needs a mask"
  | noName => "inject needs a name"
  | unknown what text => s!"unknown {what} {quoted text}"
  | value reason => reason.message
  | conversion source target => s!"cannot convert {source.name} literal to {target.name}"
  | notWhole x => s!"int literal {x.text} is not a whole number"
  | outside x => s!"int literal {x.text} is outside ±{Value.maxExactInt}"

end Document

inductive DocumentError where
  | malformed
  | unreadable (line : Nat)
  | cycle (names : List String)
  /-- a name without a node, and the node that uses it, if it is not an output -/
  | missing (user : Option String) (name : String)
  | unknownOp (node op : String)
  | inputCount (node op : String) (want got : Nat)
  | literal (node : String) (line : Nat) (reason : LiteralError)
  | refusedNode (node : String) (fault : Document.AttributeFault)
  | parameter (name : String) (reason : LiteralError)
  | compile (failure : Failure)
deriving DecidableEq, Repr

namespace DocumentError

open Text

def message : DocumentError → String
  | malformed => "malformed document"
  | unreadable line => s!"line {line}: unreadable literal"
  | cycle names => "graph structure: cycle " ++ " -> ".intercalate names
  | missing none name => s!"graph structure: outputs refers to missing node {quoted name}"
  | missing (some node) name =>
    s!"graph structure: node {quoted node} refers to missing node {quoted name}"
  | unknownOp node op => s!"graph structure: node {quoted node}: unknown op {quoted op}"
  | inputCount node op want got =>
    s!"graph structure: node {quoted node}: {op} takes {want} inputs, got {got}"
  | literal node line reason =>
    s!"graph structure: node {quoted node}, line {line}: {reason.message}"
  | refusedNode node fault =>
    if node.isEmpty then "configuration: " ++ fault.message
    else s!"configuration: {quoted node}: {fault.message}"
  | parameter name reason =>
    if name.isEmpty then "configuration: " ++ reason.message
    else s!"configuration: {quoted name}: {reason.message}"
  | compile failure => failure.message

def blame : DocumentError → Blame
  | malformed | unreadable _ => .other
  | refusedNode _ _ | parameter _ _ => .configuration
  | compile failure => failure.blame
  | _ => .graph

end DocumentError
end Terrain
