/-!
# A place in a text

The reader of documents walks over the characters of a text and needs to know the line and the
column of each: nesting is told by columns, and messages name lines.  Line ends are made alike
before the walk, so a line feed ends a line wherever the text came from.
-/

namespace Terrain.Yaml

/-- what is still to be read, and where that starts; lines count from one, columns from zero -/
structure Cursor where
  rest : List Char
  line : Nat
  column : Nat
deriving DecidableEq, Repr

def isBlank (c : Char) : Bool := c == ' ' || c == '\t'

def isBreak (c : Char) : Bool := c == '\n' || c == '\u2028' || c == '\u2029'

def atGap : List Char → Bool
  | [] => true
  | c :: _ => isBlank c || isBreak c

def normalize : List Char → List Char
  | [] => []
  | '\r' :: '\n' :: rest => '\n' :: normalize rest
  | '\r' :: rest => '\n' :: normalize rest
  | '\u0085' :: rest => '\n' :: normalize rest
  | c :: rest => c :: normalize rest

def isPlainText (c : Char) : Bool :=
  c == '\t' || c == '\n' || c == '\r' || (' ' ≤ c && c ≤ '~') || c == '\u0085'
    || ('\u00a0' ≤ c && c.toNat ≤ 0xFFFD) || 0x10000 ≤ c.toNat

namespace Cursor

def start (text : String) : Cursor :=
  let cs := match text.toList with
    | '\ufeff' :: rest => rest
    | cs => cs
  ⟨normalize cs, 1, 0⟩

def head? (c : Cursor) : Option Char := c.rest.head?

def next (c : Cursor) : Cursor :=
  match c.rest with
  | [] => c
  | x :: rest => if isBreak x then ⟨rest, c.line + 1, 0⟩ else ⟨rest, c.line, c.column + 1⟩

/-- past `n` characters of the same line -/
def drop (c : Cursor) (n : Nat) : Cursor := ⟨c.rest.drop n, c.line, c.column + n⟩

/-- three of `mark` at the start of a line set documents apart -/
def atMarker (c : Cursor) (mark : Char) : Bool :=
  c.column == 0 && c.rest.take 3 == [mark, mark, mark] && atGap (c.rest.drop 3)

def atEnd (c : Cursor) : Bool := c.rest.isEmpty || c.atMarker '-' || c.atMarker '.'

/-- the sign `c` with a gap after it -/
def atSign (c : Cursor) (sign : Char) : Bool :=
  match c.rest with
  | x :: rest => x == sign && atGap rest
  | [] => false

/-! ## between two tokens -/

/-- skips blanks, comments and line ends.  Inside brackets (`flow`) tabs are blanks everywhere;
outside they may not stand where a key could start.  The flag says whether one could, and a line
end outside brackets sets it. -/
def skipFrom (flow : Bool) : (comment fresh : Bool) → (line column : Nat) → List Char → Cursor × Bool
  | _, fresh, line, column, [] => (⟨[], line, column⟩, fresh)
  | comment, fresh, line, column, c :: rest =>
    if isBreak c then skipFrom flow false (fresh || !flow) (line + 1) 0 rest
    else if comment then skipFrom flow true fresh line (column + 1) rest
    else if c == ' ' || (c == '\t' && (flow || !fresh)) then
      skipFrom flow false fresh line (column + 1) rest
    else if c == '#' then skipFrom flow true fresh line (column + 1) rest
    else (⟨c :: rest, line, column⟩, fresh)

def skip (c : Cursor) (flow fresh : Bool) : Cursor × Bool :=
  skipFrom flow false fresh c.line c.column c.rest

end Cursor
end Terrain.Yaml
