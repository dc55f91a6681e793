import Terrain.Value
import Terrain.Text.Timestamp

/-!
# Settings

What documents and manifests hold before it is given a meaning: numbers, texts, lists and tables
as they are written.  `Setting.toValue` makes a value of one, or says why it cannot.

A whole number goes to a single number directly.  Inside a list it goes through a double first, so
it may be rounded twice.
-/

namespace Terrain

open Number (Single Double)
open Text (Timestamp)

inductive Setting where
  | null
  | boolean (b : Bool)
  /-- a whole number that fits a signed word of 64 bits -/
  | integer (n : Int)
  /-- a whole number that only fits an unsigned word -/
  | word (n : Nat)
  | real (x : Double)
  | text (s : String)
  | time (t : Timestamp)
  | list (items : List Setting)
  /-- a table in the order it was written; its keys may be other than texts -/
  | table (entries : List (Setting × Setting))
  | given (l : Literal)
deriving Repr

namespace Setting

instance : Inhabited Setting := ⟨.null⟩

def isNull : Setting → Bool
  | .null => true
  | _ => false

def isText : Setting → Bool
  | .text _ => true
  | _ => false

def keyLe : Setting → Setting → Bool
  | .null, _ => true
  | .boolean a, .boolean b => !a || b
  | .integer a, .integer b => a ≤ b
  | .word a, .word b => a ≤ b
  | .text a, .text b => a ≤ b
  | a, b => rank a ≤ rank b
where
  rank : Setting → Nat
    | .null => 0
    | .boolean _ => 1
    | .integer _ => 2
    | .word _ => 3
    | .real _ => 4
    | .text _ => 5
    | .time _ => 6
    | .list _ => 7
    | .table _ => 8
    | .given _ => 9

mutual

def display : Setting → String
  | .null => "<nil>"
  | .boolean b => toString b
  | .integer n => toString n
  | .word n => toString n
  | .real x => x.text
  | .text s => s
  | .time t => t.text
  | .list items => "[" ++ " ".intercalate (displayAll items) ++ "]"
  | .table entries =>
    let shown := (displayEntries entries).mergeSort fun a b => keyLe a.1 b.1
    "map[" ++ " ".intercalate (shown.map (·.2)) ++ "]"
  | .given l => l.display

def displayAll : List Setting → List String
  | [] => []
  | s :: rest => s.display :: displayAll rest

def displayEntries : List (Setting × Setting) → List (Setting × String)
  | [] => []
  | (k, v) :: rest => (k, k.display ++ ":" ++ v.display) :: displayEntries rest

end

def kindName : Setting → String
  | .null => "<nil>"
  | .boolean _ => "bool"
  | .integer _ => "int"
  | .word _ => "uint64"
  | .real _ => "float64"
  | .text _ => "string"
  | .time _ => "time.Time"
  | .list _ => "[]interface \x7b\x7d"
  | .table entries =>
    if entries.all (·.1.isText) then "map[string]interface \x7b\x7d"
    else "map[interface \x7b\x7d]interface \x7b\x7d"
  | .given l => l.kindName

def toDouble : Setting → Except LiteralError Double
  | .integer n => .ok (.ofInt n)
  | .real x => .ok x
  | s => .error (.component s.display)

def toValue : Setting → Except LiteralError Value
  | .integer n => .ok (.scalar (.ofInt n))
  | .real x => (Literal.double x).toValue
  | .boolean b => (Literal.boolean b).toValue
  | .list items => do (Literal.doubles (← items.mapM toDouble)).toValue
  | .given l => l.toValue
  | s => .error (.kind s.kindName)

end Setting
end Terrain
