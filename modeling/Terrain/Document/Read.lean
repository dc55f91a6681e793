import Terrain.Document.Basic
import Terrain.Yaml.Decode

/-!
# Reading documents

A document is a mapping with a fixed set of fields, and so is each of its nodes; any other field
fails.
-/

namespace Terrain.Document

/-- a text is a reference, and anything else a literal; so is the use of an anchor -/
def Input.ofNode (node : Yaml.Node) : Input :=
  match node with
  | .scalar _ _ _ text => if node.isTextScalar then .reference text else ofLiteral node
  | _ => ofLiteral node
where
  ofLiteral (node : Yaml.Node) : Input :=
    match node.setting? with
    | some s => .literal node.line s
    | none => .unreadable node.line

def NodeSpec.setField (spec : NodeSpec) : String × Yaml.Node → Option NodeSpec
  | ("op", n) => do return { spec with op := ← n.text? }
  | ("in", n) => do return { spec with inputs := (← n.items?).map Input.ofNode }
  | ("mask", n) => do return { spec with mask := ← n.text? }
  | ("kind", n) => do return { spec with kind := ← n.text? }
  | ("metric", n) => do return { spec with metric := ← n.text? }
  | ("feature", n) => do return { spec with feature := ← n.text? }
  | ("octaves", n) => do return { spec with octaves := ← n.integer? }
  | ("reduction", n) => do return { spec with reduction := ← n.integer? }
  | ("shape", n) => do return { spec with shape := ← n.text? }
  | ("name", n) => do return { spec with name := ← n.text? }
  | ("value", n) => do return { spec with value := ← n.setting? }
  | _ => none

def NodeSpec.ofNode? (node : Yaml.Node) : Option NodeSpec := do
  (← node.fields?).foldlM NodeSpec.setField .empty

def entries? {α : Type} (read : Yaml.Node → Option α) (node : Yaml.Node) : Option (List (String × α)) := do
  (← node.fields?).mapM fun (key, value) => do return (key, ← read value)

def setField (doc : Document) : String × Yaml.Node → Option Document
  | ("name", n) => do return { doc with name := ← n.text? }
  | ("parameters", n) => do return { doc with parameters := ← entries? Yaml.Node.setting? n }
  | ("nodes", n) => do return { doc with nodes := ← entries? NodeSpec.ofNode? n }
  | ("outputs", n) => do return { doc with outputs := ← entries? Yaml.Node.text? n }
  | _ => none

def ofNode? (node : Yaml.Node) : Option Document := do
  (← node.fields?).foldlM setField .empty

def parse (text : String) : Except DocumentError Document :=
  match (Yaml.Node.parse? text).bind ofNode? with
  | some doc => .ok doc
  | none => .error .malformed

end Terrain.Document
