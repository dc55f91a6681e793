import Terrain.Document.Recipe

/-!
# From names to a graph

Building starts at the outputs and follows names.  A name is built once, when it is first met,
after its inputs; every use of it then shares the node.  Names that nothing reaches are never
looked at.

A literal input becomes a constant when it is met, so its number comes before that of the node it
belongs to.

The names on the way from an output to the one being built are distinct, and each but the last is
a node of the document.  So the depth of the recursion is at most the number of nodes.
-/

namespace Terrain.Document

structure Builder where
  graph : Graph
  built : List (String × NodeId)

abbrev BuildM := ExceptT DocumentError (StateM Builder)

def build (op : Op) (inputs : List NodeId) : BuildM NodeId := do
  let b ← get
  let (id, graph) := b.graph.insert op (inputs.map .node)
  set { b with graph }
  return id

def remember (name : String) (id : NodeId) : BuildM Unit :=
  modify fun b => { b with built := (name, id) :: b.built }

def buildInput (resolve : String → BuildM NodeId) (owner : String) : Input → BuildM NodeId
  | .reference name => resolve name
  | .literal line s =>
    match s.toValue with
    | .ok v => build (.constant v) []
    | .error e => throw (.literal owner line e)
  | .unreadable line => throw (.unreadable line)

/-- the node of a name; `path` leads to it from an output -/
def resolve (doc : Document) : Nat → (path : List String) → (name : String) → BuildM NodeId
  | 0, path, name => throw (.missing path.getLast? name)
  | fuel + 1, path, name => do
    if name = positionName then return Graph.positionId
    if path.contains name then throw (.cycle (path.dropWhile (· ≠ name) ++ [name]))
    if let some id := (← get).built.lookup name then return id
    let some spec := doc.nodes.lookup name | throw (.missing path.getLast? name)
    let some recipe := recipe? spec.op | throw (.unknownOp name spec.op)
    if spec.inputs.length ≠ recipe.inputs then
      throw (.inputCount name spec.op recipe.inputs spec.inputs.length)
    let inputs ← spec.inputs.mapM (buildInput (resolve doc fuel (path ++ [name])) name)
    match recipe.make spec with
    | .error fault => throw (.refusedNode name fault)
    | .ok op =>
      let id ← build op inputs
      remember name id
      return id

def buildRoot (doc : Document) (target : String) : BuildM Root := do
  let name := (doc.outputs.lookup target).getD ""
  let id ← resolve doc (doc.nodes.length + 1) [] name
  return ⟨target, some id⟩

/-- adds the nodes that the outputs need to a graph.  What was added before a failure stays, so
that no number is handed out twice. -/
def roots (doc : Document) (g : Graph) : Except DocumentError (List Root) × Graph :=
  let (result, b) := (doc.targets.mapM (buildRoot doc)).run.run ⟨g, []⟩
  (result, b.graph)

end Terrain.Document
