import Terrain.Number.Single

/-!
# Numerals

Whole numbers in the bases that documents and manifests use, and decimal numbers with a point and
an exponent.  Reading works on characters; a reader that answers has used all of them.
-/

namespace Terrain.Number

def digitValue? (c : Char) : Option Nat :=
  if '0' ≤ c ∧ c ≤ '9' then some (c.toNat - '0'.toNat)
  else if 'a' ≤ c ∧ c ≤ 'f' then some (c.toNat - 'a'.toNat + 10)
  else if 'A' ≤ c ∧ c ≤ 'F' then some (c.toNat - 'A'.toNat + 10)
  else none

/-- the number that digits stand for, after those that stand for `high` -/
def readDigits (base : Nat) : (high : Nat) → List Char → Option Nat
  | high, [] => some high
  | high, c :: rest =>
    match digitValue? c with
    | some d => if d < base then readDigits base (high * base + d) rest else none
    | none => none

/-- at least one digit of a base -/
def readNat (base : Nat) : List Char → Option Nat
  | [] => none
  | cs => readDigits base 0 cs

/-- a whole number whose first characters tell its base; a leading zero alone means octal -/
def readPrefixed : List Char → Option Nat
  | '0' :: mark :: c :: rest =>
    if mark = 'b' ∨ mark = 'B' then readDigits 2 0 (c :: rest)
    else if mark = 'o' ∨ mark = 'O' then readDigits 8 0 (c :: rest)
    else if mark = 'x' ∨ mark = 'X' then readDigits 16 0 (c :: rest)
    else readDigits 8 0 (mark :: c :: rest)
  | '0' :: rest => readDigits 8 0 rest
  | cs => readNat 10 cs

/-- the least and the largest signed word of 64 bits -/
def minInt64 : Int := -9223372036854775808
def maxInt64 : Int := 9223372036854775807

def wordLimit : Nat := 18446744073709551616

def fitsInt64 (n : Int) : Bool := minInt64 ≤ n && n ≤ maxInt64

/-- a sign, if there is one, and a number that must fit a signed word of 64 bits -/
def readSigned (read : List Char → Option Nat) (cs : List Char) : Option Int :=
  let n? : Option Int := match cs with
    | '+' :: rest => (read rest).map Int.ofNat
    | '-' :: rest => (read rest).map fun n => -(n : Int)
    | _ => (read cs).map Int.ofNat
  n?.filter fitsInt64

def readWord (read : List Char → Option Nat) (cs : List Char) : Option Nat :=
  (read cs).filter (· < wordLimit)

/-! ## decimal numbers -/

def readSign : List Char → Bool × List Char
  | '+' :: rest => (false, rest)
  | '-' :: rest => (true, rest)
  | cs => (false, cs)

/-- a written decimal number, `digits * 10 ^ exponent` -/
structure Numeral where
  negative : Bool
  digits : Nat
  exponent : Int
deriving DecidableEq, Repr

def readExponent : List Char → Option Int
  | [] => some 0
  | c :: rest =>
    if c = 'e' ∨ c = 'E' then
      let (negative, digits) := readSign rest
      (readNat 10 digits).map fun n => if negative then -(n : Int) else n
    else none

def readNumeral (cs : List Char) : Option Numeral :=
  let (negative, cs) := readSign cs
  let whole := cs.takeWhile Char.isDigit
  let rest := cs.dropWhile Char.isDigit
  let (fraction, rest) := match rest with
    | '.' :: more => (more.takeWhile Char.isDigit, more.dropWhile Char.isDigit)
    | _ => ([], rest)
  if whole.isEmpty ∧ fraction.isEmpty then none
  else do
    let digits ← readDigits 10 0 (whole ++ fraction)
    let exponent ← readExponent rest
    return ⟨negative, digits, exponent - fraction.length⟩

/-- the nearest double; past the largest there is none -/
def Numeral.toDouble? (n : Numeral) : Option Double :=
  let x := Double.ofDecimal n.negative n.digits n.exponent
  if x.isInfinite then none else some x

def readDouble (cs : List Char) : Option Double := (readNumeral cs).bind Numeral.toDouble?

def separatorsOk : (afterDigit : Bool) → List Char → Bool
  | _, [] => true
  | afterDigit, '_' :: rest =>
    afterDigit && (rest.head?.map Char.isDigit).getD false && separatorsOk false rest
  | _, c :: rest => separatorsOk c.isDigit rest

def dropSeparators (cs : List Char) : List Char := cs.filter (· ≠ '_')

end Terrain.Number
