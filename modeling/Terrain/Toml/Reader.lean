import Terrain.Toml.Scalar

/-!
# Statements of manifests

A manifest is a list of statements: the head of a table, the head of one more table in a list, or
an entry.  Values nest, so their reader is bounded by fuel; every step takes a character, and the
length of the text is fuel enough.
-/

namespace Terrain.Toml

inductive Written where
  | scalar (s : Setting)
  | array (items : List Written)
  | inline (entries : List (List String × Written))
deriving Inhabited

inductive Statement where
  | table (path : List String)
  | element (path : List String)
  | entry (path : List String) (value : Written)

/-! ## between values -/

def skipComment (cs : List Char) : List Char := cs.dropWhile (!isBreak ·)

def skipGap : (fuel : Nat) → List Char → List Char
  | 0, cs => cs
  | fuel + 1, cs =>
    match cs.dropWhile isSpace with
    | '#' :: rest => skipGap fuel (skipComment rest)
    | rest => rest

def endLine (cs : List Char) : Option (List Char) :=
  match skipBlanks cs with
  | [] => some []
  | '#' :: rest => some (skipComment rest)
  | c :: rest => if isBreak c then some rest else none

/-! ## keys -/

def isKeyPart (c : Char) : Bool :=
  ('a' ≤ c && c ≤ 'z') || ('A' ≤ c && c ≤ 'Z') || c.isDigit || c == '_' || c == '-'

def readKeyPart : Reader String := fun cs =>
  match skipBlanks cs with
  | '"' :: rest => readQuoted ('"' :: rest)
  | '\'' :: rest => readQuoted ('\'' :: rest)
  | rest =>
    let part := rest.takeWhile isKeyPart
    if part.isEmpty then none else some (String.ofList part, rest.dropWhile isKeyPart)

def readKey : (fuel : Nat) → Reader (List String)
  | 0, _ => none
  | fuel + 1, cs => do
    let (part, cs) ← readKeyPart cs
    match skipBlanks cs with
    | '.' :: cs =>
      let (more, cs) ← readKey fuel cs
      return (part :: more, cs)
    | cs => return ([part], cs)

/-! ## values -/

mutual

def readValue : (fuel : Nat) → Reader Written
  | 0, _ => none
  | fuel + 1, cs =>
    match skipBlanks cs with
    | '[' :: cs => (readItems fuel cs).map fun (items, cs) => (.array items, cs)
    | '{' :: cs => (readEntries fuel cs).map fun (entries, cs) => (.inline entries, cs)
    | cs => (readScalar cs).map fun (s, cs) => (.scalar s, cs)

def readItems : (fuel : Nat) → Reader (List Written)
  | 0, _ => none
  | fuel + 1, cs =>
    match skipGap fuel cs with
    | ']' :: cs => some ([], cs)
    | cs => do
      let (item, cs) ← readValue fuel cs
      match skipGap fuel cs with
      | ',' :: cs =>
        let (more, cs) ← readItems fuel cs
        return (item :: more, cs)
      | ']' :: cs => return ([item], cs)
      | _ => none

def readEntries : (fuel : Nat) → Reader (List (List String × Written))
  | 0, _ => none
  | fuel + 1, cs =>
    match skipGap fuel cs with
    | '}' :: cs => some ([], cs)
    | cs => do
      let (key, cs) ← readKey fuel cs
      let (value, cs) ← readValue fuel (← expect '=' cs)
      match skipGap fuel cs with
      | ',' :: cs =>
        let (more, cs) ← readEntries fuel cs
        return ((key, value) :: more, cs)
      | '}' :: cs => return ([(key, value)], cs)
      | _ => none

end

/-! ## statements -/

def readStatement (fuel : Nat) : Reader Statement
  | '[' :: '[' :: cs => do
    let (path, cs) ← readKey fuel cs
    let cs ← expect ']' (← expect ']' cs)
    return (.element path, cs)
  | '[' :: cs => do
    let (path, cs) ← readKey fuel cs
    return (.table path, ← expect ']' cs)
  | cs => do
    let (path, cs) ← readKey fuel cs
    let (value, cs) ← readValue fuel (← expect '=' cs)
    return (.entry path value, cs)

def readStatements : (fuel : Nat) → List Char → Option (List Statement)
  | 0, _ => none
  | fuel + 1, cs =>
    match skipGap fuel cs with
    | [] => some []
    | cs => do
      let (s, cs) ← readStatement fuel cs
      return s :: (← readStatements fuel (← endLine cs))

def isAdmitted (c : Char) (next : Option Char) : Bool :=
  if c == '\r' then next == some '\n'
  else c == '\t' || c == '\n' || (' ' ≤ c && c != '\x7f')

def allAdmitted : List Char → Bool
  | [] => true
  | c :: cs => isAdmitted c cs.head? && allAdmitted cs

def statements? (text : String) : Option (List Statement) :=
  let cs := match text.toList with
    | '\ufeff' :: cs => cs
    | cs => cs
  if allAdmitted cs then readStatements (2 * cs.length + 4) cs else none

end Terrain.Toml
