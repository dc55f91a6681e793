/-!
# Nodes of a document

What a text is made of once it is read: scalars, sequences and mappings, and the places where one
is used again by its anchor.  Each node knows the line it starts on.

A mapping that cannot be used, since a key is given twice or a merged entry is no mapping, is kept
as `malformed`: it only counts where something reads it.
-/

namespace Terrain.Yaml

inductive Node where
  | scalar (line : Nat) (tag : Option String) (plain : Bool) (text : String)
  | sequence (line : Nat) (items : List Node)
  | mapping (line : Nat) (entries : List (Node × Node))
  /-- a use of an anchor; inside the anchored node itself it has no target -/
  | aliasOf (line : Nat) (name : String) (target : Option Node)
  | malformed (line : Nat)
deriving Repr

namespace Node

def null (line : Nat) : Node := .scalar line none true ""

instance : Inhabited Node := ⟨null 1⟩

def line : Node → Nat
  | .scalar line _ _ _ => line
  | .sequence line _ => line
  | .mapping line _ => line
  | .aliasOf line _ _ => line
  | .malformed line => line

/-- a node as it is with a tag and an anchor written on line `line` before it -/
def mark (tag : Option String) (line : Nat) : Node → Node
  | .scalar _ none isPlain text => .scalar line tag isPlain text
  | .scalar _ tag' isPlain text => .scalar line tag' isPlain text
  | .sequence _ items => .sequence line items
  | .mapping _ entries => .mapping line entries
  | .aliasOf _ name target => .aliasOf line name target
  | .malformed _ => .malformed line

/-! ## mappings -/

/-- two keys of one mapping must differ by this -/
def keyText : Node → Nat × String
  | .scalar _ _ _ text => (0, text)
  | .aliasOf _ name _ => (1, name)
  | .sequence _ _ => (2, "")
  | .mapping _ _ => (3, "")
  | .malformed _ => (3, "")

def keysDiffer : List (Node × Node) → Bool
  | [] => true
  | (k, _) :: rest => rest.all (·.1.keyText ≠ k.keyText) && keysDiffer rest

def isMergeKey : Node → Bool
  | .scalar _ tag isPlain text =>
    text == "<<" && ((tag == none && isPlain) || tag == some "!!merge")
  | _ => false

def mergeEntries? : Node → Option (List (Node × Node))
  | .mapping _ entries => some entries
  | .aliasOf _ _ (some (.mapping _ entries)) => some entries
  | _ => none

def mergeSource? : Node → Option (List (Node × Node))
  | .sequence _ items => (items.mapM mergeEntries?).map List.flatten
  | node => node.mergeEntries?

def addMissing (entries : List (Node × Node)) : List (Node × Node) → List (Node × Node)
  | [] => entries
  | (k, v) :: rest =>
    if entries.any (·.1.keyText = k.keyText) then addMissing entries rest
    else addMissing (entries ++ [(k, v)]) rest

def ofEntries (line : Nat) (entries : List (Node × Node)) : Node :=
  if !keysDiffer entries then .malformed line
  else
    let own := entries.filter (!·.1.isMergeKey)
    match entries.find? (·.1.isMergeKey) with
    | none => .mapping line own
    | some (_, source) =>
      match source.mergeSource? with
      | some merged => .mapping line (addMissing own merged)
      | none => .malformed line

end Node
end Terrain.Yaml
