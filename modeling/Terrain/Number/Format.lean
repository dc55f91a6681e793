/-!
# Binary floating-point formats

A number of a binary format is read as an exact `significand * 2 ^ scale`, and an exact ratio of
natural numbers is rounded back into a format.  Both directions are plain arithmetic on `Nat` and
`Int`, so that what a stored pattern means can be reasoned about.

* `Format.unpack`   the number that a bit pattern stands for;
* `Format.ofRatio`  the pattern nearest to a ratio, a tie going to the even pattern;
* `Format.convert`  a pattern of one format as a pattern of another.
-/

namespace Terrain.Number

-- monoids bring powers of their own: the ones of numbers stay those that are computed with
@[default_instance 20000]
instance (priority := 2000) powOfNatPow {α : Type} [NatPow α] : Pow α Nat := instPowNat

/-- how many bits hold the fraction and how many the exponent; one more holds the sign -/
structure Format where
  fractionBits : Nat
  exponentBits : Nat
deriving DecidableEq, Repr

namespace Format

def binary16 : Format := ⟨10, 5⟩
def binary32 : Format := ⟨23, 8⟩
def binary64 : Format := ⟨52, 11⟩

def bias (f : Format) : Nat := 2 ^ (f.exponentBits - 1) - 1

def topField (f : Format) : Nat := 2 ^ f.exponentBits - 1

/-- the scale of the numbers next to zero, the smallest there is -/
def leastScale (f : Format) : Int := 1 - (f.bias : Int) - f.fractionBits

end Format

inductive Datum where
  | finite (negative : Bool) (significand : Nat) (scale : Int)
  | infinite (negative : Bool)
  | nan
deriving DecidableEq, Repr

/-- `n / d` rounded to the nearest natural number, a tie going to the even one -/
def divRound (n d : Nat) : Nat :=
  let q := n / d
  let r := n % d
  if d < 2 * r ∨ (2 * r = d ∧ q % 2 = 1) then q + 1 else q

theorem divRound_one (n : Nat) : divRound n 1 = n := by
  simp [divRound, Nat.mod_one]

def scaled (n d : Nat) : Int → Nat × Nat
  | .ofNat k => (n * 2 ^ k, d)
  | .negSucc k => (n, d * 2 ^ (k + 1))

/-- the exponent of the power of two at or below `n / d`, for positive `n` and `d` -/
def ratioLog2 (n d : Nat) : Int :=
  let e : Int := (n.log2 : Int) - d.log2
  let (a, b) := scaled n d (-e)
  if a < b then e - 1 else e

namespace Format

def signBit (f : Format) (negative : Bool) : Nat :=
  if negative then 2 ^ (f.fractionBits + f.exponentBits) else 0

def infinity (f : Format) (negative : Bool) : Nat :=
  f.signBit negative + f.topField * 2 ^ f.fractionBits

def nan (f : Format) : Nat :=
  f.topField * 2 ^ f.fractionBits + 2 ^ (f.fractionBits - 1)

def unpack (f : Format) (bits : Nat) : Datum :=
  let fraction := bits % 2 ^ f.fractionBits
  let field := bits / 2 ^ f.fractionBits % 2 ^ f.exponentBits
  let negative := bits / 2 ^ (f.fractionBits + f.exponentBits) % 2 == 1
  if field = f.topField then
    if fraction = 0 then .infinite negative else .nan
  else if field = 0 then
    .finite negative fraction f.leastScale
  else
    .finite negative (2 ^ f.fractionBits + fraction) (f.leastScale + (field - 1 : Nat))

/-- the pattern nearest to `n / d`; a ratio past the largest number gives an infinity -/
def ofRatio (f : Format) (negative : Bool) (n d : Nat) : Nat :=
  if n = 0 then f.signBit negative
  else
    let scale := max (ratioLog2 n d - f.fractionBits) f.leastScale
    let (a, b) := scaled n d (-scale)
    let significand := divRound a b
    -- a significand of `fractionBits + 1` digits carries its leading one into the field
    let field := (scale - f.leastScale).toNat
    let magnitude := field * 2 ^ f.fractionBits + significand
    if f.topField * 2 ^ f.fractionBits ≤ magnitude then f.infinity negative
    else f.signBit negative + magnitude

def pack (f : Format) : Datum → Nat
  | .finite negative significand scale =>
    let (n, d) := scaled significand 1 scale
    f.ofRatio negative n d
  | .infinite negative => f.infinity negative
  | .nan => f.nan

def convert (source target : Format) (bits : Nat) : Nat :=
  target.pack (source.unpack bits)

end Format
end Terrain.Number
