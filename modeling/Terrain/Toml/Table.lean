import Terrain.Toml.Reader

/-!
# Tables of manifests

The statements of a manifest build one table.  A key is given once, with two exceptions.  A table
that only came into being on the way to another one may still be given itself, since nothing was
said about it; such tables are *implied*.  And what was given as a list is replaced when it is
given again.
-/

namespace Terrain.Toml

inductive Entry where
  | value (s : Setting)
  | table (rows : List (String × Entry))
  | tables (elements : List (List (String × Entry)))

abbrev Rows := List (String × Entry)

mutual

def Entry.setting : Entry → Setting
  | .value s => s
  | .table rows => .table (rowSettings rows)
  | .tables elements => .list (elementSettings elements)

def rowSettings : List (String × Entry) → List (Setting × Setting)
  | [] => []
  | (k, e) :: rest => (.text k, e.setting) :: rowSettings rest

def elementSettings : List (List (String × Entry)) → List Setting
  | [] => []
  | rows :: rest => .table (rowSettings rows) :: elementSettings rest

end

namespace Rows

def set (rows : Rows) (k : String) (e : Entry) : Rows :=
  if rows.any (·.1 == k) then rows.map fun (n, old) => (n, if n == k then e else old)
  else rows ++ [(k, e)]

/-- the rows at a path; of a list of tables its last -/
def at? : Rows → List String → Option Rows
  | rows, [] => some rows
  | rows, k :: path =>
    match rows.lookup k with
    | some (.table inner) => at? inner path
    | some (.tables elements) => elements.getLast?.bind fun inner => at? inner path
    | _ => none

def modifyAt (f : Rows → Option Rows) : Rows → List String → Option Rows
  | rows, [] => f rows
  | rows, k :: path =>
    match rows.lookup k with
    | some (.table inner) => do return rows.set k (.table (← modifyAt f inner path))
    | some (.tables elements) => do
      let inner ← modifyAt f (← elements.getLast?) path
      return rows.set k (.tables (elements.dropLast ++ [inner]))
    | _ => none

end Rows

structure Builder where
  root : Rows
  /-- tables that came into being on the way to others -/
  implied : List (List String)
  lists : List (List String)
  context : List String

abbrev BuildM := StateT Builder Option

namespace Builder

def empty : Builder := ⟨[], [], [], []⟩

def imply (path : List String) : BuildM Unit :=
  modify fun b => { b with implied := path :: b.implied.filter (· != path) }

def forgetImplied (path : List String) : BuildM Unit :=
  modify fun b => { b with implied := b.implied.filter (· != path) }

/-- notes whether a key of the table in effect was given as a list; the empty key stands for the
table itself -/
def noteKind (key : String) (isList : Bool) : BuildM Unit :=
  modify fun b =>
    let path := if key.isEmpty then b.context else b.context ++ [key]
    let path := if path.isEmpty then [""] else path
    let others := b.lists.filter (· != path)
    { b with lists := if isList then path :: others else others }

def give (key : String) (e : Entry) : BuildM Unit := do
  let b ← get
  let path := b.context ++ [key]
  let rows ← (b.root.at? b.context : Option Rows)
  let change (f : Rows → Rows) : BuildM Unit := do
    let root ← (Rows.modifyAt (some ∘ f) b.root b.context : Option Rows)
    modify fun b => { b with root }
  if (rows.lookup key).isNone then change (·.set key e)
  else if b.lists.contains path then
    change (·.set key e)
    forgetImplied path
  else if b.implied.contains path then forgetImplied path
  else failure

def approach : (done path : List String) → BuildM Unit
  | _, [] => pure ()
  | done, k :: rest => do
    let b ← get
    let rows ← (b.root.at? done : Option Rows)
    match rows.lookup k with
    | none =>
      let root ← (Rows.modifyAt (fun r => some (r.set k (.table []))) b.root done : Option Rows)
      modify fun b => { b with root }
      imply (done ++ [k])
    | some (.value _) => failure
    | some _ => pure ()
    approach (done ++ [k]) rest

/-- puts a table into effect, as one more of a list if `element` is set -/
def enter (path : List String) (element : Bool) : BuildM Unit := do
  let parent := path.dropLast
  let key := path.getLastD ""
  approach [] parent
  modify fun b => { b with context := parent }
  if element then
    let b ← get
    let add (rows : Rows) : Option Rows :=
      match rows.lookup key with
      | none => some (rows.set key (.tables [[]]))
      | some (.tables elements) => some (rows.set key (.tables (elements ++ [[]])))
      | some _ => none
    let root ← (Rows.modifyAt add b.root parent : Option Rows)
    modify fun b => { b with root }
  else give key (.table [])
  modify fun b => { b with context := path }

def enterImplied : List String → BuildM Unit
  | [] => pure ()
  | k :: rest => do
    let path := (← get).context ++ [k]
    imply path
    enter path false
    enterImplied rest

def current : BuildM Setting := do
  let b ← get
  let rows ← (b.root.at? b.context : Option Rows)
  return .table (rowSettings rows)

mutual

/-- the value of a key of the table in effect; inside a list a table is one more of a list -/
def value (key : String) (element : Bool) : Written → BuildM Entry
  | .scalar s => return .value s
  | .array items => do
    noteKind key true
    return .value (.list (← values key items))
  | .inline rows => do
    let outer := (← get).context
    let path := outer ++ [key]
    imply path
    enter path element
    entries path rows
    modify fun b => { b with context := path }
    let made ← current
    modify fun b => { b with context := outer }
    return .value made

def values (key : String) : List Written → BuildM (List Setting)
  | [] => return []
  | w :: rest => do
    let e ← value key true w
    return e.setting :: (← values key rest)

/-- the entries of a table in braces, which is at `path` -/
def entries (path : List String) : List (List String × Written) → BuildM Unit
  | [] => pure ()
  | (key, w) :: rest => do
    modify fun b => { b with context := path }
    entry key w
    entries path rest

def entry (key : List String) (w : Written) : BuildM Unit := do
  let last := key.getLastD ""
  enterImplied key.dropLast
  let e ← value last false w
  give last e
  noteKind last (match w with
    | .array _ => true
    | _ => false)

end

def statement : Statement → BuildM Unit
  | .table path => do
    enter path false
    noteKind "" false
  | .element path => do
    enter path true
    noteKind "" false
  | .entry key w => do
    let outer := (← get).context
    entry key w
    modify fun b => { b with context := outer }

end Builder

def parse? (text : String) : Option Setting := do
  let statements ← statements? text
  let (_, b) ← (statements.forM Builder.statement).run .empty
  return .table (rowSettings b.root)

end Terrain.Toml
