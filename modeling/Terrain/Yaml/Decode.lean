import Terrain.Setting
import Terrain.Yaml.Reader

/-!
# What a node says

A plain scalar says what its spelling looks like: nothing, a truth value, a number, a time or a
text.  A quoted one is a text.  A tag asks for one of these and fails where the spelling is another,
save that a whole number may stand for a real one.

`Node.setting?` reads a node whole.  The readers of fields (`Node.text?`, `Node.integer?`) are more
lenient: any scalar has a text, and a real number is cut to a whole one.
-/

namespace Terrain.Yaml

open Number
open Text (Timestamp)

/-! ## spellings -/

def word? : String → Option Setting
  | "" => some .null
  | "~" => some .null
  | "null" => some .null
  | "Null" => some .null
  | "NULL" => some .null
  | "true" => some (.boolean true)
  | "True" => some (.boolean true)
  | "TRUE" => some (.boolean true)
  | "false" => some (.boolean false)
  | "False" => some (.boolean false)
  | "FALSE" => some (.boolean false)
  | ".nan" => some (.real .nan)
  | ".NaN" => some (.real .nan)
  | ".NAN" => some (.real .nan)
  | ".inf" => some (.real (.infinity false))
  | ".Inf" => some (.real (.infinity false))
  | ".INF" => some (.real (.infinity false))
  | "+.inf" => some (.real (.infinity false))
  | "+.Inf" => some (.real (.infinity false))
  | "+.INF" => some (.real (.infinity false))
  | "-.inf" => some (.real (.infinity true))
  | "-.Inf" => some (.real (.infinity true))
  | "-.INF" => some (.real (.infinity true))
  | _ => none

def markedNumber? : List Char → Option Setting
  | '0' :: 'b' :: rest => read 2 rest
  | '-' :: '0' :: 'b' :: rest => (readSigned (readNat 2) ('-' :: rest)).map .integer
  | '0' :: 'o' :: rest => read 8 rest
  | '-' :: '0' :: 'o' :: rest => (readSigned (readNat 8) ('-' :: rest)).map .integer
  | _ => none
where
  read (base : Nat) (cs : List Char) : Option Setting :=
    (readSigned (readNat base) cs).map .integer
      <|> (readWord (readNat base) cs).map .word

/-- a scalar that starts like a number.  Underscores do not count; what no whole number can hold
is real. -/
def number? (cs : List Char) : Option Setting :=
  let digits := dropSeparators cs
  (readSigned readPrefixed digits).map .integer
    <|> (readWord readPrefixed digits).map .word
    <|> (readDouble digits).map .real
    <|> markedNumber? digits

def fraction? (cs : List Char) : Option Setting :=
  if separatorsOk false cs then (readDouble (dropSeparators cs)).map .real else none

/-- what a plain scalar says; times are only looked for where `times` holds -/
def resolve (times : Bool) (text : String) : Setting :=
  let cs := text.toList
  let found : Option Setting :=
    word? text <|> match cs with
      | [] => none
      | c :: _ =>
        if c == '.' then fraction? cs
        else if c.isDigit || c == '+' || c == '-' then
          (if times then (Timestamp.parse? cs).map .time else none) <|> number? cs
        else none
  found.getD (.text text)

/-- the tag of what a scalar says; a literal that was given is not written in a document -/
def tagOf : Setting → String
  | .null => "!!null"
  | .boolean _ => "!!bool"
  | .integer _ => "!!int"
  | .word _ => "!!int"
  | .real _ => "!!float"
  | .text _ => "!!str"
  | .time _ => "!!timestamp"
  | .list _ => "!!seq"
  | .table _ => "!!map"
  | .given _ => ""

def resolveTagged (tag text : String) : Option Setting :=
  if tag == "!!str" then some (.text text)
  else
    let s := resolve (tag == "!!timestamp") text
    if tagOf s == tag then some s
    else match s with
      | .integer n => if tag == "!!float" then some (.real (.ofInt n)) else none
      | _ => none

def scalarSetting? (tag : Option String) (plain : Bool) (text : String) : Option Setting :=
  match tag with
  | some tag => resolveTagged tag text
  | none =>
    if !plain then some (.text text)
    -- the sign of a merged mapping says nothing by itself
    else if text == "<<" then none
    else some (resolve true text)

namespace Node

def isTextScalar : Node → Bool
  | .scalar _ tag plain text =>
    tag == some "!!str" ||
      (tag == none && ((scalarSetting? tag plain text).map Setting.isText).getD false)
  | _ => false

/-! ## whole nodes -/

def putEntry (key : Setting) (value : Setting) : List (Setting × Setting) → List (Setting × Setting)
  | [] => [(key, value)]
  | (k, v) :: rest =>
    if k.display == key.display && k.kindName == key.kindName then (k, value) :: rest
    else (k, v) :: putEntry key value rest

def tableOf (entries : List (Setting × Setting)) : Setting :=
  .table (entries.foldl (fun t (k, v) => putEntry k v t) [])

def isCollection : Setting → Bool
  | .list _ => true
  | .table _ => true
  | _ => false

mutual

def setting? : Node → Option Setting
  | .scalar _ tag plain text => scalarSetting? tag plain text
  | .sequence _ items => (settings? items).map .list
  | .mapping _ entries => (entrySettings? entries).map tableOf
  | .aliasOf _ _ (some target) => target.setting?
  | .aliasOf _ _ none => none
  | .malformed _ => none

def settings? : List Node → Option (List Setting)
  | [] => some []
  | node :: rest => do
    let s ← node.setting?
    return s :: (← settings? rest)

/-- a collection cannot be a key -/
def entrySettings? : List (Node × Node) → Option (List (Setting × Setting))
  | [] => some []
  | (k, v) :: rest => do
    let key ← k.setting?
    guard !(isCollection key)
    let value ← v.setting?
    return (key, value) :: (← entrySettings? rest)

end

/-! ## fields -/

/-- the node itself, or the one it is a use of; none inside that one -/
def target? : Node → Option Node
  | .aliasOf _ _ (some target) => target.target?
  | .aliasOf _ _ none => none
  | node => some node

/-- the text of a scalar; nothing is written as the empty text -/
def text? (node : Node) : Option String :=
  match node.target? with
  | some (.scalar _ tag plain text) =>
    (scalarSetting? tag plain text).map fun s => if s.isNull then "" else text
  | _ => none

def isNull (node : Node) : Bool :=
  match node.target? with
  | some (.scalar _ tag plain text) => ((scalarSetting? tag plain text).map Setting.isNull).getD false
  | _ => false

/-- the whole number toward zero from a real one; below the least word it is that word -/
def wholeOf? (x : Double) : Option Int :=
  match x.datum with
  | .nan => none
  | .infinite negative => if negative then some minInt64 else none
  | d => match d.truncate? with
    | some n =>
      if n < maxInt64 + 1 then some (max n minInt64)
      else if n = maxInt64 + 1 then some minInt64
      else none
    | none => none

/-- a whole number; nothing written is zero -/
def integer? (node : Node) : Option Int := do
  match node.target? with
  | some (.scalar _ tag plain text) =>
    match ← scalarSetting? tag plain text with
    | .null => some 0
    | .integer n => some n
    | .real x => wholeOf? x
    | _ => none
  | _ => none

/-- the items of a sequence; nothing written is none -/
def items? (node : Node) : Option (List Node) :=
  if node.isNull then some []
  else match node.target? with
    | some (.sequence _ items) => some items
    | _ => none

/-- the entries of a mapping under the texts of their keys; nothing written is none.  An entry
whose key is null is left out. -/
def fields? (node : Node) : Option (List (String × Node)) :=
  if node.isNull then some []
  else match node.target? with
    | some (.mapping _ entries) => do
      let named ← entries.mapM fun (k, v) => do return (k, ← k.text?, v)
      return (named.filter (!·.1.isNull)).map (·.2)
    | _ => none

end Node
end Terrain.Yaml
