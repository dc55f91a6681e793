import Terrain.Number.Format

/-!
# Timestamps

A date, or a date and a time of day, as documents write them.  A timestamp is never a value of a
graph; it is read so that it can be named and shown when it is refused.
-/

namespace Terrain.Text

structure Timestamp where
  year : Nat
  month : Nat
  day : Nat
  hour : Nat
  minute : Nat
  second : Nat
  nanosecond : Nat
  /-- seconds east of the prime meridian -/
  offset : Int
deriving DecidableEq, Repr

namespace Timestamp

def isLeap (year : Nat) : Bool := year % 4 == 0 && (year % 100 != 0 || year % 400 == 0)

def daysIn (year month : Nat) : Nat :=
  if month = 2 then (if isLeap year then 29 else 28)
  else if month = 4 ∨ month = 6 ∨ month = 9 ∨ month = 11 then 30
  else 31

def digit (c : Char) : Nat := c.toNat - '0'.toNat

def shortNumber : List Char → Option (Nat × List Char)
  | a :: b :: rest =>
    if !a.isDigit then none
    else if b.isDigit then some (digit a * 10 + digit b, rest)
    else some (digit a, b :: rest)
  | [a] => if a.isDigit then some (digit a, []) else none
  | [] => none

def pairNumber (a b : Char) : Option Nat :=
  if a.isDigit && b.isDigit then some (digit a * 10 + digit b) else none

def year? : List Char → Option (Nat × List Char)
  | a :: b :: c :: d :: '-' :: rest =>
    if a.isDigit && b.isDigit && c.isDigit && d.isDigit then
      some (digit a * 1000 + digit b * 100 + digit c * 10 + digit d, rest)
    else none
  | _ => none

def date? (cs : List Char) : Option ((Nat × Nat × Nat) × List Char) := do
  let (year, cs) ← year? cs
  let (month, cs) ← shortNumber cs
  match cs with
  | '-' :: cs =>
    let (day, cs) ← shortNumber cs
    if 1 ≤ month ∧ month ≤ 12 ∧ 1 ≤ day ∧ day ≤ daysIn year month then
      some ((year, month, day), cs)
    else none
  | _ => none

/-- a fraction of a second, cut to nanoseconds; it may be left out -/
def fraction : List Char → Nat × List Char
  | mark :: c :: rest =>
    if (mark = '.' ∨ mark = ',') ∧ c.isDigit then
      let digits := (c :: rest).takeWhile Char.isDigit
      let kept := digits.take 9
      let n := kept.foldl (fun n d => n * 10 + digit d) 0
      (n * 10 ^ (9 - kept.length), (c :: rest).dropWhile Char.isDigit)
    else (0, mark :: c :: rest)
  | cs => (0, cs)

structure Clock where
  hour : Nat
  minute : Nat
  second : Nat
  nanosecond : Nat

def clock? (cs : List Char) : Option (Clock × List Char) := do
  let (hour, cs) ← shortNumber cs
  match cs with
  | ':' :: cs =>
    let (minute, cs) ← shortNumber cs
    match cs with
    | ':' :: cs =>
      let (second, cs) ← shortNumber cs
      let (nanosecond, cs) := fraction cs
      if hour < 24 ∧ minute < 60 ∧ second < 60 then
        some (⟨hour, minute, second, nanosecond⟩, cs)
      else none
    | _ => none
  | _ => none

/-- a zone at the end: the letter of the prime meridian, or a sign, hours and minutes -/
def zone? : List Char → Option Int
  | ['Z'] => some 0
  | [sign, a, b, ':', c, d] => do
    let hours ← pairNumber a b
    let minutes ← pairNumber c d
    if 24 < hours ∨ 60 < minutes then none
    let seconds : Int := (hours * 60 + minutes) * 60
    if sign = '+' then some seconds else if sign = '-' then some (-seconds) else none
  | _ => none

def ofParts (date : Nat × Nat × Nat) (clock : Clock) (offset : Int) : Timestamp :=
  ⟨date.1, date.2.1, date.2.2, clock.hour, clock.minute, clock.second, clock.nanosecond, offset⟩

/-- a date alone, a date and a time with a zone, or both set apart by blanks with none -/
def parse? (cs : List Char) : Option Timestamp := do
  let (date, rest) ← date? cs
  match rest with
  | [] => some (ofParts date ⟨0, 0, 0, 0⟩ 0)
  | mark :: rest =>
    if mark = 'T' ∨ mark = 't' then
      let (clock, rest) ← clock? rest
      let offset ← zone? rest
      some (ofParts date clock offset)
    else if mark = ' ' then
      let (clock, rest) ← clock? (rest.dropWhile (· = ' '))
      if rest.isEmpty then some (ofParts date clock 0) else none
    else none

def padded (width n : Nat) : String :=
  let digits := toString n
  "".pushn '0' (width - digits.length) ++ digits

def fractionText (nanosecond : Nat) : String :=
  if nanosecond = 0 then ""
  else
    let digits := (padded 9 nanosecond).toList.reverse.dropWhile (· = '0')
    "." ++ String.ofList digits.reverse

def zoneText (offset : Int) : String :=
  let minutes := offset.natAbs / 60
  let sign := if offset < 0 then "-" else "+"
  sign ++ padded 2 (minutes / 60) ++ padded 2 (minutes % 60)

def text (t : Timestamp) : String :=
  let zone := zoneText t.offset
  let name := if t.offset = 0 then "UTC" else zone
  s!"{padded 4 t.year}-{padded 2 t.month}-{padded 2 t.day} " ++
  s!"{padded 2 t.hour}:{padded 2 t.minute}:{padded 2 t.second}{fractionText t.nanosecond} " ++
  s!"{zone} {name}"

end Timestamp
end Terrain.Text
