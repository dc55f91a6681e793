import Terrain.Number.Numeral
import Terrain.Yaml.Cursor

/-!
# The spellings of a scalar

A scalar is written plain, in single or double quotes, or as a block of lines.  Each reader starts
at the scalar's first character and leaves the place after it, or fails.

Lines are joined the same way in plain and quoted scalars: one line end becomes a blank, and each
further one stays.
-/

namespace Terrain.Yaml

/-! ## gaps inside a scalar -/

/-- line ends and the blanks around them.  A tab left of column `floor` fails. -/
def breaksFrom (floor line column : Nat) (breaks : List Char) : List Char → Option (List Char × Cursor)
  | [] => some (breaks, ⟨[], line, column⟩)
  | c :: rest =>
    if isBreak c then breaksFrom floor (line + 1) 0 (breaks ++ [c]) rest
    else if c == '\t' && column < floor && !breaks.isEmpty then none
    else if isBlank c then breaksFrom floor line (column + 1) breaks rest
    else some (breaks, ⟨c :: rest, line, column⟩)

def foldBreaks : List Char → List Char
  | [] => []
  | ['\n'] => [' ']
  | '\n' :: more => more
  | breaks => breaks

def gap (floor : Nat) (c : Cursor) : Option (List Char × Cursor) := do
  let (breaks, after) ← breaksFrom floor c.line c.column [] c.rest
  let blanks := c.rest.takeWhile isBlank
  return (if breaks.isEmpty then blanks else foldBreaks breaks, after)

/-! ## plain -/

def isFlowMark (c : Char) : Bool :=
  c == ',' || c == '?' || c == '[' || c == ']' || c == '\x7b' || c == '\x7d'

def plainRun (flow : Bool) : List Char → List Char
  | [] => []
  | c :: rest =>
    if isBlank c || isBreak c || (c == ':' && atGap rest) || (flow && isFlowMark c) then []
    else c :: plainRun flow rest

/-- runs and the gaps between them, after the text `done` that ends at `last` -/
def plainFrom (flow : Bool) (floor : Nat) :
    Nat → (done : List Char) → (last : Cursor) → Option (List Char × Cursor)
  | 0, done, last => some (done, last)
  | fuel + 1, done, last => do
    let (between, c) ← gap floor last
    if !done.isEmpty && between.isEmpty then return (done, last)
    if (!flow && !done.isEmpty && c.column < floor) || c.atMarker '-' || c.atMarker '.'
        || c.head? == some '#' then
      return (done, last)
    match plainRun flow c.rest with
    | [] => return (done, last)
    | run => plainFrom flow floor fuel (done ++ between ++ run) (c.drop run.length)

/-- a plain scalar; outside brackets its further lines start at column `floor` or right of it -/
def plain (flow : Bool) (floor : Nat) (c : Cursor) : Option (String × Cursor) := do
  let (text, after) ← plainFrom flow floor (c.rest.length + 1) [] c
  return (String.ofList text, after)

/-- the characters that cannot start a plain scalar by themselves -/
def isIndicator (c : Char) : Bool :=
  "-?:,[]\x7b\x7d#&*!|>'\"%@`".toList.contains c

def startsPlain (flow : Bool) : List Char → Bool
  | [] => false
  | c :: rest =>
    !(isBlank c || isBreak c || isIndicator c)
      || (c == '-' && !((rest.head?.map isBlank).getD false))
      || (!flow && (c == '?' || c == ':') && !atGap rest)

/-! ## quoted -/

/-- a single-quoted scalar after its opening quote; two quotes stand for one -/
def singleFrom : Nat → (done : List Char) → Cursor → Option (List Char × Cursor)
  | 0, _, _ => none
  | fuel + 1, done, c =>
    if c.atEnd then none
    else match c.rest with
      | '\'' :: '\'' :: _ => singleFrom fuel (done ++ ['\'']) (c.drop 2)
      | '\'' :: _ => some (done, c.drop 1)
      | x :: _ =>
        if isBlank x || isBreak x then do
          let (between, after) ← gap 0 c
          singleFrom fuel (done ++ between) after
        else singleFrom fuel (done ++ [x]) (c.drop 1)
      | [] => none

def shortEscape? : Char → Option Char
  | '0' => some '\x00' | 'a' => some '\x07' | 'b' => some '\x08' | 't' => some '\t'
  | '\t' => some '\t' | 'n' => some '\n' | 'v' => some '\x0b' | 'f' => some '\x0c'
  | 'r' => some '\r' | 'e' => some '\x1b' | ' ' => some ' ' | '"' => some '"'
  | '\'' => some '\'' | '/' => some '/' | '\\' => some '\\' | 'N' => some '\u0085'
  | '_' => some '\u00a0' | 'L' => some '\u2028' | 'P' => some '\u2029'
  | _ => none

def escapeLength? : Char → Option Nat
  | 'x' => some 2
  | 'u' => some 4
  | 'U' => some 8
  | _ => none

/-- the character of an escape and the number of characters after the backslash -/
def escape? : List Char → Option (Char × Nat)
  | [] => none
  | letter :: rest =>
    match escapeLength? letter with
    | some n => do
      let digits := rest.take n
      let code ← if digits.length = n then Number.readNat 16 digits else none
      if h : code.isValidChar then some (Char.ofNatAux code h, n + 1) else none
    | none => (shortEscape? letter).map (·, 1)

def doubleFrom : Nat → (done : List Char) → Cursor → Option (List Char × Cursor)
  | 0, _, _ => none
  | fuel + 1, done, c =>
    if c.atEnd then none
    else match c.rest with
      | '"' :: _ => some (done, c.drop 1)
      | '\\' :: x :: rest =>
        if isBreak x then do
          let (breaks, after) ← breaksFrom 0 (c.line + 1) 0 [] rest
          doubleFrom fuel (done ++ breaks) after
        else do
          let (y, n) ← escape? (x :: rest)
          doubleFrom fuel (done ++ [y]) (c.drop (n + 1))
      | x :: _ =>
        if isBlank x || isBreak x then do
          let (between, after) ← gap 0 c
          doubleFrom fuel (done ++ between) after
        else doubleFrom fuel (done ++ [x]) (c.drop 1)
      | [] => none

def quotedScalar (double : Bool) (c : Cursor) : Option (String × Cursor) := do
  let read := if double then doubleFrom else singleFrom
  let (text, after) ← read (c.rest.length + 1) [] (c.drop 1)
  return (String.ofList text, after)

/-! ## blocks of lines -/

inductive Chomping where
  | strip | clip | keep
deriving DecidableEq, Repr

structure BlockHeader where
  chomping : Chomping
  increment : Option Nat

def chomping? : Char → Option Chomping
  | '+' => some .keep
  | '-' => some .strip
  | _ => none

def increment? (c : Char) : Option Nat :=
  if '1' ≤ c ∧ c ≤ '9' then some (c.toNat - '0'.toNat) else none

def blockHeader : List Char → BlockHeader × Nat
  | a :: b :: _ =>
    match chomping? a, increment? a, chomping? b, increment? b with
    | some k, _, _, some n => (⟨k, some n⟩, 2)
    | some k, _, _, none => (⟨k, none⟩, 1)
    | none, some n, some k, _ => (⟨k, some n⟩, 2)
    | none, some n, none, _ => (⟨.clip, some n⟩, 1)
    | none, none, _, _ => (⟨.clip, none⟩, 0)
  | [a] =>
    match chomping? a, increment? a with
    | some k, _ => (⟨k, none⟩, 1)
    | none, some n => (⟨.clip, some n⟩, 1)
    | none, none => (⟨.clip, none⟩, 0)
  | [] => (⟨.clip, none⟩, 0)

/-- empty lines before a line of a block.  `indent` is zero while it is not known yet; then the
widest column met is also given. -/
def emptyLines (indent : Nat) (line column widest : Nat) (breaks : List Char) :
    List Char → Option (List Char × Nat × Cursor)
  | [] => some (breaks, max widest column, ⟨[], line, column⟩)
  | c :: rest =>
    if c == ' ' && (indent == 0 || column < indent) then
      emptyLines indent line (column + 1) widest breaks rest
    else if c == '\t' && (indent == 0 || column < indent) then none
    else if isBreak c then
      emptyLines indent (line + 1) 0 (max widest column) (breaks ++ [c]) rest
    else some (breaks, max widest column, ⟨c :: rest, line, column⟩)

/-- the lines of a block: the text so far, the last line's end, the empty lines since then, and
whether the last line started with a blank -/
def blockLines (literal : Bool) (indent : Nat) :
    Nat → (done ending empty : List Char) → (blank : Bool) → Cursor →
      Option (List Char × List Char × List Char × Cursor)
  | 0, done, ending, empty, _, c => some (done, ending, empty, c)
  | fuel + 1, done, ending, empty, blank, c =>
    if c.column ≠ indent ∨ c.rest.isEmpty then some (done, ending, empty, c)
    else do
      let startsBlank := (c.head?.map isBlank).getD false
      let joined :=
        if !literal && !blank && !startsBlank && ending == ['\n'] then
          (if empty.isEmpty then [' '] else [])
        else ending
      let text := c.rest.takeWhile (!isBreak ·)
      let after := c.drop text.length
      let ending := after.rest.take 1
      let after := after.next
      let (more, _, after) ← emptyLines indent after.line after.column 0 [] after.rest
      blockLines literal indent fuel (done ++ joined ++ empty ++ text) ending more startsBlank after

/-- a block scalar, from its bar on, inside a structure at column `parent` -/
def block (parent : Int) (c : Cursor) : Option (String × Cursor) := do
  let literal := c.head? == some '|'
  let (header, n) := blockHeader (c.rest.drop 1)
  let c := c.drop (n + 1)
  let c := c.drop (c.rest.takeWhile isBlank).length
  let c := if c.head? == some '#' then c.drop (c.rest.takeWhile (!isBreak ·)).length else c
  match c.rest with
  | x :: _ => if !isBreak x then none
  | [] => pure ()
  let c := c.next
  let outer := (max parent 0).toNat
  let known := match header.increment with
    | some n => outer + n
    | none => 0
  let (empty, widest, c) ← emptyLines known c.line c.column 0 [] c.rest
  let indent := if known = 0 then max widest (max (parent + 1).toNat 1) else known
  let (done, ending, empty, c) ← blockLines literal indent (c.rest.length + 1) [] [] empty false c
  let tail := match header.chomping with
    | .strip => []
    | .clip => ending
    | .keep => ending ++ empty
  return (String.ofList (done ++ tail), c)

end Terrain.Yaml
