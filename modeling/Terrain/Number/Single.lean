import Terrain.Number.Format

/-!
# Single and double numbers

The kernel's numbers are binary32 and the numbers of documents are binary64.  Both are carried as
their bit patterns: two numbers are the same exactly when their patterns are, which is what an
artifact's bytes and a parameter buffer compare.
-/

namespace Terrain.Number

structure Double where
  bits : UInt64
deriving DecidableEq, Inhabited, Repr

structure Single where
  bits : UInt32
deriving DecidableEq, Inhabited, Repr

/-- is a number too large for a single, though finite? -/
def Datum.overflowsSingle : Datum → Bool
  | .finite _ m scale =>
    let (n, q) := scaled m 1 scale
    -- the largest single number
    (2 ^ 24 - 1) * 2 ^ 104 * q < n
  | _ => false

namespace Double

def datum (x : Double) : Datum := Format.binary64.unpack x.bits.toNat

def ofDatum (d : Datum) : Double := ⟨(Format.binary64.pack d).toUInt64⟩

def ofInt (n : Int) : Double := ⟨(Format.binary64.ofRatio (n < 0) n.natAbs 1).toUInt64⟩

/-- `digits * 10 ^ exponent` to the nearest double; an exponent far outside the format's range is
settled without computing the power -/
def ofDecimal (negative : Bool) (digits : Nat) (exponent : Int) : Double :=
  let size : Int := exponent + (digits.log2 * 30103 / 100000 : Nat)
  let bits :=
    if digits = 0 ∨ size < -420 then Format.binary64.signBit negative
    else if 420 < size then Format.binary64.infinity negative
    else match exponent with
      | .ofNat k => Format.binary64.ofRatio negative (digits * 10 ^ k) 1
      | .negSucc k => Format.binary64.ofRatio negative digits (10 ^ (k + 1))
  ⟨bits.toUInt64⟩

def infinity (negative : Bool) : Double := ⟨(Format.binary64.infinity negative).toUInt64⟩
def nan : Double := ⟨Format.binary64.nan.toUInt64⟩

/-- is it above zero? a NaN is not -/
def isPositive (x : Double) : Bool :=
  match x.datum with
  | .finite negative m _ => !negative && m != 0
  | .infinite negative => !negative
  | .nan => false

def isInfinite (x : Double) : Bool :=
  match x.datum with
  | .infinite _ => true
  | _ => false

end Double

namespace Single

def datum (x : Single) : Datum := Format.binary32.unpack x.bits.toNat

def ofDatum (d : Datum) : Single := ⟨(Format.binary32.pack d).toUInt32⟩

def ofInt (n : Int) : Single := ⟨(Format.binary32.ofRatio (n < 0) n.natAbs 1).toUInt32⟩

def ofDouble (x : Double) : Single := ofDatum x.datum

def toDouble (x : Single) : Double := Double.ofDatum x.datum

def zero : Single := ⟨0⟩
def one : Single := ⟨0x3f800000⟩

def isNaN (x : Single) : Bool := x.datum == .nan

/-- both zeros are zero; a NaN is not -/
def isZero (x : Single) : Bool :=
  match x.datum with
  | .finite _ 0 _ => true
  | _ => false

/-! ## arithmetic

Each operation rounds once, so a sum of a product rounds twice. -/

def lift₂ (op : Float32 → Float32 → Float32) (a b : Single) : Single :=
  ⟨(op (Float32.ofBits a.bits) (Float32.ofBits b.bits)).toBits⟩

def add : Single → Single → Single := lift₂ (· + ·)
def sub : Single → Single → Single := lift₂ (· - ·)
def mul : Single → Single → Single := lift₂ (· * ·)
def div : Single → Single → Single := lift₂ (· / ·)

end Single

/-! ## whole numbers -/

namespace Datum

/-- the whole number toward zero from a finite number -/
def truncate? : Datum → Option Int
  | .finite negative m scale =>
    let (n, d) := scaled m 1 scale
    some (if negative then -(n / d : Nat) else (n / d : Nat))
  | _ => none

/-- the whole number nearest to a finite number, a tie going to the even one -/
def round? : Datum → Option Int
  | .finite negative m scale =>
    let (n, d) := scaled m 1 scale
    some (if negative then -(divRound n d : Nat) else (divRound n d : Nat))
  | _ => none

def isWhole : Datum → Bool
  | .finite _ m scale =>
    let (n, d) := scaled m 1 scale
    n % d == 0
  | _ => false

end Datum

/-- the signed 32-bit word of a whole number; what does not fit is the least word -/
def toInt32 (n : Option Int) : Int32 :=
  match n with
  | some n => if -2147483648 ≤ n ∧ n < 2147483648 then Int32.ofInt n else Int32.minValue
  | none => Int32.minValue

end Terrain.Number
