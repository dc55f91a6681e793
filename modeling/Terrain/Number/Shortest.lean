import Terrain.Number.Single

/-!
# Shortest decimals

The fewest decimal digits that read back as the same number, and of those the nearest.  All
comparisons are between ratios of natural numbers.

A number `m * 2 ^ q` is what every real of its rounding interval rounds to: half a unit above and
half a unit below, a quarter below when `m` is the first significand of its exponent.  The ends
belong to the interval when `m` is even.
-/

namespace Terrain.Number

/-- `digits * 10 ^ exponent` -/
structure Decimal where
  digits : Nat
  exponent : Int
deriving DecidableEq, Repr

namespace Decimal

def scaled10 (n d : Nat) : Int → Nat × Nat
  | .ofNat k => (n * 10 ^ k, d)
  | .negSucc k => (n, d * 10 ^ (k + 1))

/-- drops trailing zeros, at most `fuel` of them -/
def strip : Nat → Decimal → Decimal
  | 0, x => x
  | fuel + 1, x =>
    if x.digits ≠ 0 ∧ x.digits % 10 = 0 then strip fuel ⟨x.digits / 10, x.exponent + 1⟩ else x

/-- the number of decimal digits, one for zero -/
def width (n : Nat) : Nat := (Nat.toDigits 10 n).length

/-- the exponent of the power of ten at or below `n / d`, for positive `n` and `d` -/
def ratioLog10 (n d : Nat) : Int :=
  let e : Int := (width n : Int) - width d
  let (a, b) := scaled10 n d (-e)
  if a < b then e - 1 else e

end Decimal

structure Interval where
  /-- the number is `4 * m` quarters -/
  significand : Nat
  scale : Int
  below : Nat
  above : Nat
  closed : Bool

namespace Interval

def contains (i : Interval) (x : Decimal) : Bool :=
  -- x and the quarters as ratios over one denominator
  let (xn, xd) := Decimal.scaled10 x.digits 1 x.exponent
  let (qn, qd) := scaled 1 4 i.scale
  let value := xn * qd
  let low := (4 * i.significand - i.below) * qn * xd
  let high := (4 * i.significand + i.above) * qn * xd
  if i.closed then low ≤ value && value ≤ high else low < value && value < high

/-- the grid of `n` digits around the number: the neighbours of the number on it -/
def neighbours (i : Interval) (n : Nat) : Decimal × Decimal × Bool :=
  let (a, b) := scaled i.significand 1 i.scale
  let exponent := Decimal.ratioLog10 a b - (n - 1 : Nat)
  let (p, q) := Decimal.scaled10 a b (-exponent)
  let low := p / q
  let r := p % q
  -- which of the two is nearer, the even one on a tie
  (⟨low, exponent⟩, ⟨low + 1, exponent⟩, q < 2 * r || (2 * r == q && low % 2 == 1))

/-- the shortest decimal of the interval, trying `n`, `n + 1`, … digits -/
def search (i : Interval) : Nat → Nat → Decimal
  | 0, n => (i.neighbours n).1
  | fuel + 1, n =>
    let (low, high, upper) := i.neighbours n
    match i.contains low, i.contains high with
    | true, true => if upper then high else low
    | true, false => low
    | false, true => high
    | false, false => search i fuel (n + 1)

end Interval

def Format.shortest (f : Format) (significand : Nat) (scale : Int) : Decimal :=
  let first := significand = 2 ^ f.fractionBits ∧ scale ≠ f.leastScale
  let interval : Interval :=
    { significand, scale, below := if first then 1 else 2, above := 2,
      closed := significand % 2 == 0 }
  (interval.search 17 1).strip 20

/-! ## text -/

structure Layout where
  leastPositional : Int
  firstScientific : Int

/-- Numbers are positional from `1e-4` up to `1e6`; outside, an exponent of at least two digits
follows its sign. -/
def Layout.general : Layout := ⟨-4, 6⟩

namespace Layout

def exponentText (e : Int) : String :=
  let digits := toString e.natAbs
  (if e < 0 then "e-" else "e+") ++ (if digits.length < 2 then "0" ++ digits else digits)

/-- `digits` as written, with `point` digits before the decimal point -/
def positional (digits : List Char) (point : Int) : String :=
  if point ≤ 0 then
    "0." ++ String.ofList (List.replicate point.natAbs '0' ++ digits)
  else
    let n := point.toNat
    if digits.length ≤ n then
      String.ofList (digits ++ List.replicate (n - digits.length) '0')
    else String.ofList (digits.take n ++ '.' :: digits.drop n)

def scientific : List Char → Int → String
  | [], e => "0" ++ exponentText e
  | [d], e => String.singleton d ++ exponentText e
  | d :: rest, e => String.ofList (d :: '.' :: rest) ++ exponentText e

def decimal (l : Layout) (x : Decimal) : String :=
  let digits := Nat.toDigits 10 x.digits
  let lead : Int := x.exponent + digits.length - 1
  if lead < l.leastPositional ∨ l.firstScientific ≤ lead then scientific digits lead
  else positional digits (lead + 1)

def datum (l : Layout) (f : Format) : Datum → String
  | .nan => "NaN"
  | .infinite negative => if negative then "-Inf" else "+Inf"
  | .finite negative m scale =>
    (if negative then "-" else "") ++ (if m = 0 then "0" else l.decimal (f.shortest m scale))

end Layout

def Single.text (x : Single) : String := Layout.general.datum .binary32 x.datum
def Double.text (x : Double) : String := Layout.general.datum .binary64 x.datum

end Terrain.Number
