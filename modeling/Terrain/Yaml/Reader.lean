import Terrain.Yaml.Node
import Terrain.Yaml.Scalar

/-!
# Reading a document

`Node.parse?` reads the first document of a text.  Outside brackets the columns tell the structure:
the entries of a mapping or sequence start at one column, and what belongs to an entry starts
right of it (an item of a sequence may start at the column of the key it belongs to).  Inside
brackets columns mean nothing.

A key that is not marked stands on one line with its colon, at a place where a key may start:
the first on its line, or first after the sign of an item or of a marked key.  That is the state
`fresh`.

The recursion is bounded by a number that the length of the text gives.
-/

namespace Terrain.Yaml

structure State where
  cursor : Cursor
  fresh : Bool
  /-- the anchors so far; one whose node is still being read has none yet -/
  anchors : List (String × Option Node)

abbrev Reader := StateT State Option

namespace Reader

def cursor : Reader Cursor := return (← get).cursor

def moveTo (c : Cursor) : Reader Unit := modify fun s => { s with cursor := c }

def setFresh (fresh : Bool) : Reader Unit := modify fun s => { s with fresh }

def advance (n : Nat) : Reader Unit := modify fun s => { s with cursor := s.cursor.drop n }

def skip (flow : Bool) : Reader Unit :=
  modify fun s =>
    let (c, fresh) := s.cursor.skip flow s.fresh
    { s with cursor := c, fresh }

def atOneOf (cs : List Char) : Reader Bool := do
  match (← cursor).head? with
  | some c => return cs.contains c
  | none => return false

/-! ## anchors and tags -/

def setAnchor (name : Option String) (node : Option Node) : Reader Unit :=
  match name with
  | some name => modify fun s => { s with anchors := (name, node) :: s.anchors }
  | none => pure ()

def anchored (name : Option String) (read : Reader Node) : Reader Node := do
  setAnchor name none
  let node ← read
  setAnchor name (some node)
  return node

def isNameChar (c : Char) : Bool := c.isAlphanum || c == '_' || c == '-'

def anchorName : Reader String := do
  let rest := (← cursor).rest.drop 1
  let name := rest.takeWhile isNameChar
  let after := rest.drop name.length
  guard (!name.isEmpty)
  guard (atGap after || (after.head?.map "?:,]\x7d%@`".toList.contains).getD false)
  advance (name.length + 1)
  return String.ofList name

def isTagChar (c : Char) : Bool :=
  isNameChar c || ";/?:@&=+$.!~*'()%".toList.contains c

/-- the long form that the doubled sign stands for -/
def tagStem : List Char := "tag:yaml.org,2002:".toList

def shortTag (tag : List Char) : String :=
  if tagStem.isPrefixOf tag then "!!" ++ String.ofList (tag.drop tagStem.length)
  else String.ofList tag

/-- a tag in its short form; the sign alone says nothing -/
def tag : Reader (Option String) := do
  let rest := (← cursor).rest
  match rest with
  | '!' :: '<' :: more =>
    let name := more.takeWhile fun c => isTagChar c || c == ',' || c == '[' || c == ']'
    guard (!name.isEmpty && more[name.length]? == some '>')
    guard (atGap (more.drop (name.length + 1)))
    advance (name.length + 3)
    return some (shortTag name)
  | _ =>
    let name := rest.takeWhile isTagChar
    guard (atGap (rest.drop name.length))
    -- of the handles only the plain and the doubled sign are known
    let named := (name.drop 1).takeWhile isNameChar
    guard (named.isEmpty || name[named.length + 1]? != some '!')
    guard (name != ['!', '!'])
    advance name.length
    return if name.length = 1 then none else some (String.ofList name)

structure Properties where
  anchor : Option String
  tag : Option String
  present : Bool

/-- an anchor and a tag in either order, each at most once -/
def properties (flow : Bool) : Reader Properties := do
  let readAnchor : Reader String := do
    let name ← anchorName
    setFresh false
    skip flow
    return name
  let readTag : Reader (Option String) := do
    let name ← tag
    setFresh false
    skip flow
    return name
  if ← atOneOf ['&'] then
    let anchor ← readAnchor
    if ← atOneOf ['!'] then
      return ⟨some anchor, ← readTag, true⟩
    return ⟨some anchor, none, true⟩
  else if ← atOneOf ['!'] then
    let tag ← readTag
    if ← atOneOf ['&'] then
      return ⟨some (← readAnchor), tag, true⟩
    return ⟨none, tag, true⟩
  else return ⟨none, none, false⟩

def readAlias : Reader Node := do
  let line := (← cursor).line
  let name ← anchorName
  match (← get).anchors.lookup name with
  | some target => return .aliasOf line name target
  | none => failure

/-! ## scalars -/

def inlineScalar (flow : Bool) (indent : Int) (tag : Option String) (line : Nat) : Reader Node := do
  let c ← cursor
  if c.head? == some '"' || c.head? == some '\'' then
    let (text, after) ← quotedScalar (c.head? == some '"') c
    moveTo after
    setFresh false
    return .scalar line tag false text
  else if startsPlain flow c.rest then
    let (text, after) ← plain flow (indent + 1).toNat c
    moveTo after
    setFresh false
    return .scalar line tag true text
  else failure

/-- a colon that makes what started at `start` a key: on the same line, and not too far -/
def atKeyColon (flow : Bool) (start : Cursor) : Reader Bool := do
  let c := (← cursor).skip flow false |>.1
  let near := c.line == start.line && start.rest.length ≤ c.rest.length + 1024
  return near && (if flow then c.head? == some ':' else c.atSign ':')

/-! ## inside brackets -/

mutual

def flowNode : Nat → Reader Node
  | 0 => failure
  | fuel + 1 => do
    skip true
    let line := (← cursor).line
    let props ← properties true
    if ← atOneOf ['*'] then
      guard !props.present
      readAlias
    else if ← atOneOf ['[', '\x7b'] then
      anchored props.anchor (flowCollection fuel line)
    else if startsPlain true (← cursor).rest || (← atOneOf ['"', '\'']) then
      anchored props.anchor (inlineScalar true 0 props.tag line)
    else
      guard props.present
      anchored props.anchor (return .scalar line props.tag true "")

def flowCollection : Nat → (line : Nat) → Reader Node
  | 0, _ => failure
  | fuel + 1, line => do
    let isSequence ← atOneOf ['[']
    advance 1
    if isSequence then
      return .sequence line (← flowItems fuel true)
    else
      return .ofEntries line (← flowEntries fuel true)

def flowValue : Nat → (close : Char) → Reader Node
  | 0, _ => failure
  | fuel + 1, close => do
    skip true
    let line := (← cursor).line
    if ← atOneOf [':'] then
      advance 1
      skip true
      if ← atOneOf [',', close] then return .null line
      else flowNode fuel
    else return .null line

def flowMarkedEntry : Nat → (close : Char) → Reader (Node × Node)
  | 0, _ => failure
  | fuel + 1, close => do
    advance 1
    skip true
    let line := (← cursor).line
    let key ← if ← atOneOf [':', ',', close] then pure (.null line) else flowNode fuel
    return (key, ← flowValue fuel close)

/-- the items of a sequence up to its closing bracket; one may be a single entry of a mapping -/
def flowItems : Nat → (first : Bool) → Reader (List Node)
  | 0, _ => failure
  | fuel + 1, first => do
    skip true
    if !first && !(← atOneOf [']']) then
      guard (← atOneOf [','])
      advance 1
      skip true
    if ← atOneOf [']'] then
      advance 1
      return []
    let start ← cursor
    let item ←
      if ← atOneOf ['?'] then
        pure (.mapping start.line [← flowMarkedEntry fuel ']'])
      else
        let node ← flowNode fuel
        if ← atKeyColon true start then
          pure (.mapping start.line [(node, ← flowValue fuel ']')])
        else pure node
    return item :: (← flowItems fuel false)

/-- the entries of a mapping up to its closing bracket; a key may stand alone -/
def flowEntries : Nat → (first : Bool) → Reader (List (Node × Node))
  | 0, _ => failure
  | fuel + 1, first => do
    skip true
    if !first && !(← atOneOf ['\x7d']) then
      guard (← atOneOf [','])
      advance 1
      skip true
    if ← atOneOf ['\x7d'] then
      advance 1
      return []
    let start ← cursor
    let entry ←
      if ← atOneOf ['?'] then flowMarkedEntry fuel '\x7d'
      else
        let key ← flowNode fuel
        if ← atKeyColon true start then pure (key, ← flowValue fuel '\x7d')
        else pure (key, .null start.line)
    return entry :: (← flowEntries fuel false)

end

/-! ## outside brackets -/

/-- a node on one line outside brackets, or a collection in brackets, or nothing after `props` -/
def inlineNode (fuel : Nat) (indent : Int) (props : Properties) (line : Nat) : Reader Node := do
  if ← atOneOf ['*'] then
    guard !props.present
    let node ← readAlias
    setFresh false
    return node
  else if ← atOneOf ['[', '\x7b'] then
    let node ← anchored props.anchor (flowCollection fuel line)
    setFresh false
    return node
  else if props.present && (← cursor).atSign ':' then
    anchored props.anchor (return .scalar line props.tag true "")
  else anchored props.anchor (inlineScalar false indent props.tag line)

def blockScalar (indent : Int) (tag : Option String) (line : Nat) : Reader Node := do
  let (text, after) ← block indent (← cursor)
  moveTo after
  setFresh true
  return .scalar line tag false text

mutual

/-- the node that belongs to an entry of a structure at column `indent`, which may be missing.
Where `level` holds, a sequence may start at that very column. -/
def blockNode : Nat → (indent : Int) → (level : Bool) → (line : Nat) → Reader Node
  | 0, _, _, _ => failure
  | fuel + 1, indent, level, line => do
    skip false
    let c ← cursor
    if c.atEnd then return .null line
    else if c.column ≤ indent then
      if level && c.column == indent && c.atSign '-' then
        return .sequence c.line (← blockItems fuel c.column true)
      else return .null line
    else blockContent fuel indent level false

/-- a node that starts here.  `marked` says that properties were read on an earlier line; then it
can only have some of its own where they belong to its first key. -/
def blockContent : Nat → (indent : Int) → (level marked : Bool) → Reader Node
  | 0, _, _, _ => failure
  | fuel + 1, indent, level, marked => do
    let start ← cursor
    let fresh := (← get).fresh
    if start.atSign '-' then
      guard fresh
      return .sequence start.line (← blockItems fuel start.column false)
    else if start.atSign '?' then
      guard fresh
      return .ofEntries start.line (← blockEntries fuel start.column none)
    else if ← atOneOf ['|', '>'] then
      blockScalar indent none start.line
    else
      let props ← properties false
      let c ← cursor
      if props.present && (c.line != start.line || c.rest.isEmpty) then
        guard !marked
        let node ← anchored props.anchor do
          let inner ←
            if c.atEnd then pure (.null start.line)
            else if c.column ≤ indent then
              if level && c.column == indent && c.atSign '-' then
                pure (.sequence c.line (← blockItems fuel c.column true))
              else pure (.null start.line)
            else blockContent fuel indent level true
          return inner.mark props.tag start.line
        return node
      else if props.present && (c.atSign '-' || c.atSign '?') then failure
      else if ← atOneOf ['|', '>'] then
        guard !marked
        anchored props.anchor (blockScalar indent props.tag start.line)
      else
        let node ← inlineNode fuel indent props start.line
        if ← atKeyColon false start then
          guard fresh
          return .ofEntries start.line (← blockEntries fuel start.column (some node))
        else
          guard !(props.present && marked)
          let here ← cursor
          let after := (here.skip false false).1
          guard !(after.atSign ':' && after.line == here.line)
          return node

/-- the items of a sequence at a column.  One at the column of a key ends where that mapping goes
on. -/
def blockItems : Nat → (column : Nat) → (level : Bool) → Reader (List Node)
  | 0, _, _ => failure
  | fuel + 1, column, level => do
    skip false
    let c ← cursor
    if c.atEnd || c.column < column then return []
    else if c.column == column && c.atSign '-' then
      advance 1
      setFresh true
      let item ← blockNode fuel column false c.line
      return item :: (← blockItems fuel column level)
    else
      guard (c.column == column && level)
      return []

/-- the entries of a mapping at a column, the first key being read already if it is given -/
def blockEntries : Nat → (column : Nat) → (key : Option Node) → Reader (List (Node × Node))
  | 0, _, _ => failure
  | fuel + 1, column, some key => do
    skip false
    let line := (← cursor).line
    advance 1
    setFresh false
    let value ← blockNode fuel column true line
    return (key, value) :: (← blockEntries fuel column none)
  | fuel + 1, column, none => do
    skip false
    let c ← cursor
    if c.atEnd || c.column < column then return []
    guard (c.column == column)
    if c.atSign '?' then
      advance 1
      setFresh true
      let key ← blockNode fuel column true c.line
      skip false
      let after ← cursor
      if !after.atEnd && after.column == column && after.atSign ':' then
        advance 1
        setFresh true
        let value ← blockNode fuel column true after.line
        return (key, value) :: (← blockEntries fuel column none)
      else return (key, .null c.line) :: (← blockEntries fuel column none)
    else
      guard !(c.atSign '-' || c.atSign ':')
      let props ← properties false
      let key ← inlineNode fuel column props c.line
      guard (← atKeyColon false c)
      blockEntries fuel column (some key)

end

/-! ## documents -/

def directives : Nat → Reader Unit
  | 0 => failure
  | fuel + 1 => do
    skip false
    let c ← cursor
    if c.column == 0 && c.head? == some '%' then
      let words := (String.ofList (c.rest.takeWhile (!isBreak ·))).splitOn " " |>.filter (· ≠ "")
      guard (words.take 2 == ["%YAML", "1.1"] || words.take 2 == ["%YAML", "1.2"])
      advance (c.rest.takeWhile (!isBreak ·)).length
      directives fuel
      guard ((← cursor).atMarker '-')

/-- the first document of a text; an empty text has none -/
def document (fuel : Nat) : Reader Node := do
  directives fuel
  let c ← cursor
  guard !c.rest.isEmpty
  if c.atMarker '-' then
    advance 3
    setFresh false
    blockNode fuel (-1) false c.line
  else
    guard !(c.atMarker '.')
    blockNode fuel (-1) false c.line

end Reader

def Node.parse? (text : String) : Option Node := do
  guard (text.toList.all isPlainText)
  let start := Cursor.start text
  let (node, _) ← (Reader.document (8 * start.rest.length + 16)).run ⟨start, true, []⟩
  return node

end Terrain.Yaml
