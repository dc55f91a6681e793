import Terrain.Graph.Validate
import Terrain.Setting

/-!
# The schema of manifests

A rule says which settings may stand in a place.  Records are closed: a field that no rule names is
refused, and every field may be left out.  Whole numbers and others are different kinds, as they
are written differently.
-/

namespace Terrain.Manifest

open Number (Double)

inductive Rule where
  | text (admits : String → Bool)
  | whole (admits : Int → Bool)
  | number (admits : Double → Bool)
  | boolean
  | listOf (item : Rule)
  | vector (length : Nat) (item : Rule)
  | either (a b : Rule)
  | record (fields : List (String × Rule))
  | table (key : String → Bool) (value : Rule)

namespace Rule

def anyText : Rule := text fun _ => true
def anyNumber : Rule := number fun _ => true

/-- the name of a field; in a manifest every key is a text -/
def fieldName : Setting → String
  | .text k => k
  | s => s.display

mutual

def admits : Rule → Setting → Bool
  | text p, .text s => p s
  -- a point in time counts as its text
  | text p, .time t => p t.text
  | whole p, .integer n => p n
  | number p, .integer n => p (.ofInt n)
  | number p, .real x => p x
  | boolean, .boolean _ => true
  | listOf item, .list items => items.all item.admits
  | vector n item, .list items => items.length == n && items.all item.admits
  | either a b, s => a.admits s || b.admits s
  | record fields, .table entries => entries.all fun (k, v) => admitsField fields (fieldName k) v
  | table key value, .table entries => entries.all fun (k, v) => key (fieldName k) && value.admits v
  | _, _ => false

/-- the rule of a field decides; without one the field is refused -/
def admitsField : List (String × Rule) → String → Setting → Bool
  | [], _, _ => false
  | (name, rule) :: rest, k, v => if name == k then rule.admits v else admitsField rest k v

end

end Rule

def isProjectName (s : String) : Bool :=
  !s.isEmpty && s.toList.all fun c => c.isAlphanum || c == '_' || c == '.' || c == '-'

def isVolumeSize (n : Int) : Bool :=
  (List.range 11).any fun k => n == 2 ^ k

def schema : Rule :=
  .record [
    ("project", .record [("name", .text isProjectName), ("version", .anyText)]),
    ("volume", .record [
      ("size", .whole isVolumeSize),
      ("scale", .number Double.isPositive),
      ("workgroup", .whole fun n => 1 ≤ n && n ≤ 1024),
      ("required", .listOf (.text isIdentifier))]),
    ("seed", .record [
      ("permutation", .vector 3 (.whole fun _ => true)),
      ("modulo", .vector 3 (.whole fun _ => true))]),
    ("parameters", .table isIdentifier
      (.either (.either .anyNumber .boolean)
        (.either (.vector 2 .anyNumber) (.vector 3 .anyNumber)))),
    ("graph", .record [("path", .anyText)]),
    ("output", .record [("source", .anyText), ("metadata", .anyText)]),
    ("cache", .record [("path", .anyText)]),
    ("server", .record [("addr", .anyText)])]

end Terrain.Manifest
