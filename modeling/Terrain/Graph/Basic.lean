import Terrain.Graph.Typing

/-!
# Expression graphs

A graph is a table of nodes, numbered from one in the order they were made.  Node one is the world
position.  Consumers of a node hold its number, so a shared node is one node; two nodes built
alike are still two.  A forward reference is the only node whose input is set later, and so the
only way to close a cycle.

`Graph.insert` is the one way in: a new node takes its number before the constants that its
literal operands become.
-/

namespace Terrain

abbrev NodeId := Nat

structure Wire where
  source : NodeId
  shape : Shape
deriving DecidableEq, Repr

structure Node where
  id : NodeId
  op : Op
  /-- a missing operand is kept in its place -/
  inputs : List (Option Wire)
deriving DecidableEq, Repr

namespace Node

def kind (n : Node) : String := n.op.kind

def typing (n : Node) : Typing := n.op.typing (n.inputs.map (·.map Wire.shape))

/-- the shape, or the code zero where there is none -/
def shape (n : Node) : Shape :=
  match n.typing with
  | .ok s => s
  | .error _ => .none

def wire (n : Node) : Wire := ⟨n.id, n.shape⟩

def inputShape (n : Node) (i : Nat) : Shape :=
  match n.inputs[i]? with
  | some (some w) => w.shape
  | _ => .none

def label (n : Node) : String := s!"#{n.id} ({n.kind})"

end Node

inductive Operand where
  | missing
  | node (id : NodeId)
  | literal (l : Literal)
deriving DecidableEq, Repr

structure Graph where
  nodes : Array Node
deriving DecidableEq, Repr

namespace Graph

def positionId : NodeId := 1

def initial : Graph := ⟨#[⟨positionId, .position, []⟩]⟩

instance : Inhabited Graph := ⟨initial⟩

def size (g : Graph) : Nat := g.nodes.size

def get? (g : Graph) (id : NodeId) : Option Node :=
  if id = 0 then none else g.nodes[id - 1]?

def next (g : Graph) : NodeId := g.size + 1

/-! ## building -/

/-- the operation of a literal: a constant, or a stand-in that no graph may use -/
def literalOp (l : Literal) : Op :=
  match l.toValue with
  | .ok v => .constant v
  | .error e => .unsupported l e

/-- the input that an operand becomes, with the node made for it when it is a literal -/
def place (g : Graph) (id : NodeId) : Operand → Option Wire × List Node
  | .missing => (none, [])
  | .node source => ((g.get? source).map Node.wire, [])
  | .literal .nothing => (none, [])
  | .literal l =>
    let n : Node := ⟨id, literalOp l, []⟩
    (some n.wire, [n])

/-- the inputs of a list of operands, literals taking numbers from `id` on, left to right -/
def placeAll (g : Graph) : NodeId → List Operand → List (Option Wire) × List Node
  | _, [] => ([], [])
  | id, o :: rest =>
    let (w, made) := g.place id o
    let (ws, more) := placeAll g (id + made.length) rest
    (w :: ws, made ++ more)

def insert (g : Graph) (op : Op) (operands : List Operand) : NodeId × Graph :=
  let id := g.next
  let (inputs, made) := g.placeAll (id + 1) operands
  (id, ⟨g.nodes ++ (⟨id, op, inputs⟩ :: made).toArray⟩)

/-- an operand as a node: a literal becomes one, a missing operand stays missing -/
def insertOperand (g : Graph) (o : Operand) : Option NodeId × Graph :=
  let (w, made) := g.place g.next o
  (w.map Wire.source, ⟨g.nodes ++ made.toArray⟩)

/-- a parameter with a fallback; a literal that is no value becomes the stand-in for one -/
def insertInject (g : Graph) (name : String) (fallback : Literal) : NodeId × Graph :=
  match fallback.toValue with
  | .ok v => g.insert (.inject name v.shape (some v)) []
  | .error e => g.insert (.unsupported fallback e) []

/-- points the reference `ref` at a node, or at nothing -/
def resolve (g : Graph) (ref : NodeId) (target : Option NodeId) : Graph :=
  match g.get? ref with
  | none => g
  | some n =>
    let inputs := match target.bind g.get? with
      | some t => [some t.wire]
      | none => []
    ⟨g.nodes.setIfInBounds (ref - 1) { n with inputs }⟩

end Graph

structure Root where
  target : String
  node : Option NodeId
deriving DecidableEq, Repr

structure Outputs where
  density : Option NodeId
  color : Option NodeId
  metallic : Option NodeId
  smoothness : Option NodeId
  extra : List Root

/-- the bound outputs in fixed order, then the others -/
def Outputs.roots (o : Outputs) : List Root :=
  ([("density", o.density), ("color", o.color), ("metallic", o.metallic),
    ("smoothness", o.smoothness)].filterMap fun (target, node) =>
      node.map fun id => ⟨target, some id⟩) ++ o.extra

/-- the shapes that the well-known outputs must have -/
def targetShape? : String → Option Shape
  | "density" => some .float
  | "color" => some .vec3
  | "metallic" => some .float
  | "smoothness" => some .float
  | _ => none

end Terrain
