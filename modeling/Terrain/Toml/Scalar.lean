import Terrain.Number.Numeral
import Terrain.Setting

/-!
# Scalars of manifests

Strings, numbers, dates and truth values.  A reader takes the characters that follow and answers
what it read with what is left, or nothing where the text is malformed.
-/

namespace Terrain.Toml

open Number (Double digitValue? readNat readDigits readSigned readDouble)
open Text (Timestamp)

abbrev Reader (α : Type) := List Char → Option (α × List Char)

def isBlank (c : Char) : Bool := c == ' ' || c == '\t'
def isBreak (c : Char) : Bool := c == '\n' || c == '\r'
def isSpace (c : Char) : Bool := isBlank c || isBreak c

def skipBlanks (cs : List Char) : List Char := cs.dropWhile isBlank

/-! ## strings -/

/-- exactly `n` hexadecimal digits, after those that stand for `high` -/
def readHex : (n high : Nat) → Reader Nat
  | 0, high, cs => some (high, cs)
  | _ + 1, _, [] => none
  | n + 1, high, c :: cs =>
    match digitValue? c with
    | some d => readHex n (16 * high + d) cs
    | none => none

/-- the character with a number written in `n` digits -/
def readCode (n : Nat) : Reader Char := fun cs => do
  let (code, rest) ← readHex n 0 cs
  if code.isValidChar then some (Char.ofNat code, rest) else none

def readEscape : Reader Char
  | 'b' :: cs => some ('\x08', cs)
  | 't' :: cs => some ('\t', cs)
  | 'n' :: cs => some ('\n', cs)
  | 'f' :: cs => some ('\x0c', cs)
  | 'r' :: cs => some ('\r', cs)
  | 'e' :: cs => some ('\x1b', cs)
  | '"' :: cs => some ('"', cs)
  | '\\' :: cs => some ('\\', cs)
  | 'x' :: cs => readCode 2 cs
  | 'u' :: cs => readCode 4 cs
  | 'U' :: cs => readCode 8 cs
  | _ => none

/-- the rest of a string of one line, with escapes; `fuel` bounds its length -/
def readBasic : (fuel : Nat) → Reader (List Char)
  | 0, _ => none
  | _ + 1, [] => none
  | _ + 1, '"' :: cs => some ([], cs)
  | fuel + 1, '\\' :: cs => do
    let (c, cs) ← readEscape cs
    let (more, cs) ← readBasic fuel cs
    return (c :: more, cs)
  | fuel + 1, c :: cs =>
    if isBreak c then none
    else do
      let (more, cs) ← readBasic fuel cs
      return (c :: more, cs)

def readLiteral : Reader (List Char)
  | [] => none
  | '\'' :: cs => some ([], cs)
  | c :: cs =>
    if isBreak c then none
    else do
      let (more, cs) ← readLiteral cs
      return (c :: more, cs)

def dropBreak : List Char → List Char
  | '\n' :: cs => cs
  | '\r' :: '\n' :: cs => cs
  | cs => cs

/-- a run of quotes inside a string of several lines: three of them end it, up to two before these
belong to it -/
inductive QuoteRun where
  | inside (quotes : Nat)
  | closing (quotes : Nat)
  | tooMany

def quoteRun (length : Nat) : QuoteRun :=
  if length < 3 then .inside length else if length < 6 then .closing (length - 3) else .tooMany

/-- the rest of a string of several lines.  With escapes, a backslash at the end of a line takes
the blanks and line ends that follow away. -/
def readLines (quote : Char) (escapes : Bool) : (fuel : Nat) → Reader (List Char)
  | 0, _ => none
  | _ + 1, [] => none
  | fuel + 1, c :: cs =>
    if c == quote then
      let run := (c :: cs).takeWhile (· == quote)
      let rest := (c :: cs).dropWhile (· == quote)
      match quoteRun run.length with
      | .tooMany => none
      | .closing n => some (List.replicate n quote, rest)
      | .inside n => do
        let (more, rest) ← readLines quote escapes fuel rest
        return (List.replicate n quote ++ more, rest)
    else if escapes && c == '\\' then
      if cs.head?.any isSpace then
        if (cs.takeWhile isSpace).contains '\n' then
          readLines quote escapes fuel (cs.dropWhile isSpace)
        else none
      else do
        let (c, cs) ← readEscape cs
        let (more, cs) ← readLines quote escapes fuel cs
        return (c :: more, cs)
    else do
      let (more, cs) ← readLines quote escapes fuel cs
      return (c :: more, cs)

def readQuoted : Reader String
  | '"' :: cs => (readBasic (cs.length + 1) cs).map fun (s, cs) => (String.ofList s, cs)
  | '\'' :: cs => (readLiteral cs).map fun (s, cs) => (String.ofList s, cs)
  | _ => none

def readString : Reader String
  | '"' :: '"' :: '"' :: cs =>
    (readLines '"' true (cs.length + 1) (dropBreak cs)).map fun (s, cs) => (String.ofList s, cs)
  | '\'' :: '\'' :: '\'' :: cs =>
    (readLines '\'' false (cs.length + 1) (dropBreak cs)).map fun (s, cs) => (String.ofList s, cs)
  | cs => readQuoted cs

/-! ## numbers -/

def isHexDigit (c : Char) : Bool := (digitValue? c).isSome

def separated : (afterDigit : Bool) → List Char → Bool
  | afterDigit, [] => afterDigit
  | afterDigit, c :: cs => (c != '_' || afterDigit) && separated (isHexDigit c) cs

/-- a decimal number that starts with a zero and goes on -/
def hasLeadingZero : List Char → Bool
  | '0' :: _ :: _ => true
  | sign :: '0' :: _ :: _ => sign == '-' || sign == '+'
  | _ => false

def plain (cs : List Char) : List Char := cs.filter (· != '_')

def integer? (cs : List Char) : Option Int :=
  if separated false cs && !hasLeadingZero cs then readSigned (readNat 10) (plain cs) else none

/-- a number in another base: the digits after the two characters that name it -/
def based? (base : Nat) (digits : List Char) : Option Int :=
  if separated false digits then readSigned (readNat base) (plain digits) else none

def pieces (cs : List Char) : List (List Char) :=
  (cs.splitOnP fun c => c == '.' || c == 'e' || c == 'E').filter (!·.isEmpty)

def pointsOk : List Char → Bool
  | [] => true
  | '.' :: cs => cs.head?.any Char.isDigit && pointsOk cs
  | _ :: cs => pointsOk cs

def float? (cs : List Char) : Option Double :=
  if (pieces cs).all (separated false) && !hasLeadingZero ((pieces cs).headD []) && pointsOk cs then
    readDouble (plain cs)
  else none

def isFloatPart (c : Char) : Bool :=
  c.isDigit || c == '_' || c == '.' || c == '-' || c == '+' || c == 'e' || c == 'E'

def readDecimal (sign : List Char) : Reader Setting := fun cs =>
  let isPart (c : Char) := c.isDigit || c == '_'
  let whole := cs.takeWhile isPart
  let rest := cs.dropWhile isPart
  match rest with
  | c :: _ =>
    if c == '.' || c == 'e' || c == 'E' then
      let more := rest.takeWhile isFloatPart
      (float? (sign ++ whole ++ more)).map fun x => (.real x, rest.dropWhile isFloatPart)
    else (integer? (sign ++ whole)).map fun n => (.integer n, rest)
  | [] => (integer? (sign ++ whole)).map fun n => (.integer n, [])

def readSignedNumber (negative : Bool) : Reader Setting
  | 'i' :: 'n' :: 'f' :: cs => some (.real (.infinity negative), cs)
  | 'n' :: 'a' :: 'n' :: cs => some (.real .nan, cs)
  | c :: cs =>
    if c.isDigit then readDecimal [if negative then '-' else '+'] (c :: cs) else none
  | [] => none

/-! ## dates -/

def readTwo : Reader Nat
  | a :: b :: cs => (Timestamp.pairNumber a b).map (·, cs)
  | _ => none

def readFour : Reader Nat := fun cs => do
  let (high, cs) ← readTwo cs
  let (low, cs) ← readTwo cs
  return (high * 100 + low, cs)

def expect (c : Char) : List Char → Option (List Char)
  | d :: cs => if d == c then some cs else none
  | [] => none

def readDate : Reader (Nat × Nat × Nat) := fun cs => do
  let (year, cs) ← readFour cs
  let (month, cs) ← readTwo (← expect '-' cs)
  let (day, cs) ← readTwo (← expect '-' cs)
  if 1 ≤ month ∧ month ≤ 12 ∧ 1 ≤ day ∧ day ≤ Timestamp.daysIn year month then
    some ((year, month, day), cs)
  else none

/-- hours and minutes; the seconds may be left out -/
def readClock : Reader Timestamp.Clock := fun cs => do
  let (hour, cs) ← readTwo cs
  let (minute, cs) ← readTwo (← expect ':' cs)
  let (second, nanosecond, cs) ← match cs with
    | ':' :: cs => do
      let (second, cs) ← readTwo cs
      let (nanosecond, cs) := Timestamp.fraction cs
      pure (second, nanosecond, cs)
    | _ => pure (0, 0, cs)
  if hour < 24 ∧ minute < 60 ∧ second < 60 then some (⟨hour, minute, second, nanosecond⟩, cs)
  else none

/-- a date, a date and a time of day with or without a zone, or a time of day -/
def timestamp? (cs : List Char) : Option Timestamp :=
  match readDate cs with
  | some (date, []) => some (.ofParts date ⟨0, 0, 0, 0⟩ 0)
  | some (date, mark :: cs) => do
    if mark != 'T' && mark != 't' && mark != ' ' then none
    let (clock, cs) ← readClock cs
    match cs with
    | [] => some (.ofParts date clock 0)
    | _ => return .ofParts date clock (← Timestamp.zone? (cs.map fun c => if c == 'z' then 'Z' else c))
  | none => do
    let (clock, cs) ← readClock cs
    if cs.isEmpty then some (.ofParts (0, 1, 1) clock 0) else none

def isDatePart (c : Char) : Bool :=
  c.isDigit || c == '-' || c == ':' || c == 'T' || c == 't' || c == ' ' || c == '.' || c == 'Z' ||
    c == 'z' || c == '+'

def readTimestamp : Reader Setting := fun cs =>
  let written := ((cs.takeWhile isDatePart).reverse.dropWhile (· == ' ')).reverse
  (timestamp? written).map fun t => (.time t, cs.dropWhile isDatePart)

/-! ## together -/

/-- a number in base two, eight or sixteen after the characters that say so -/
def readBased (base : Nat) : Reader Setting := fun cs =>
  let isPart (c : Char) : Bool := c == '_' || (digitValue? c).any fun d => d < base
  (based? base (cs.takeWhile isPart)).map fun n => (.integer n, cs.dropWhile isPart)

/-- what starts with a digit: a date if a hyphen or a colon ends its digits -/
def readNumber (cs : List Char) : Option (Setting × List Char) :=
  let digits := cs.takeWhile Char.isDigit
  match cs.dropWhile Char.isDigit with
  | c :: rest =>
    if digits == ['0'] && c == 'b' then readBased 2 rest
    else if digits == ['0'] && c == 'o' then readBased 8 rest
    else if digits == ['0'] && c == 'x' then readBased 16 rest
    else if digits != ['0'] && (c == '-' || c == ':') then readTimestamp cs
    else readDecimal [] cs
  | [] => readDecimal [] cs

def readScalar : Reader Setting
  | '"' :: cs => (readString ('"' :: cs)).map fun (s, cs) => (.text s, cs)
  | '\'' :: cs => (readString ('\'' :: cs)).map fun (s, cs) => (.text s, cs)
  | '-' :: cs => readSignedNumber true cs
  | '+' :: cs => readSignedNumber false cs
  | 'i' :: 'n' :: 'f' :: cs => some (.real (.infinity false), cs)
  | 'n' :: 'a' :: 'n' :: cs => some (.real .nan, cs)
  | 't' :: 'r' :: 'u' :: 'e' :: cs => some (.boolean true, cs)
  | 'f' :: 'a' :: 'l' :: 's' :: 'e' :: cs => some (.boolean false, cs)
  | c :: cs => if c.isDigit then readNumber (c :: cs) else none
  | [] => none

end Terrain.Toml
