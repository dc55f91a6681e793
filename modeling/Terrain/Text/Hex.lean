import Terrain.Text.Quoted

/-!
# Hexadecimal text of bytes

Two lower-case digits a byte, high digit first.  Reading takes digits of either case, pair by pair
from the left, and names the first byte that is no digit before it complains of an odd length.
-/

namespace Terrain.Text.Hex

def encode (bytes : List UInt8) : List Char :=
  bytes.flatMap fun b => [hexDigit (b.toNat / 16), hexDigit (b.toNat % 16)]

theorem encode_cons (b : UInt8) (bs : List UInt8) :
    encode (b :: bs) = hexDigit (b.toNat / 16) :: hexDigit (b.toNat % 16) :: encode bs := rfl

def toText (bytes : List UInt8) : String := String.ofList (encode bytes)

inductive Error where
  | badByte (byte : UInt8)
  | oddLength
deriving DecidableEq, Repr

def digit? (b : UInt8) : Option UInt8 :=
  if 48 ≤ b ∧ b ≤ 57 then some (b - 48)
  else if 97 ≤ b ∧ b ≤ 102 then some (b - 87)
  else if 65 ≤ b ∧ b ≤ 70 then some (b - 55)
  else none

def decode : List UInt8 → Except Error (List UInt8)
  | [] => .ok []
  | [a] => if (digit? a).isSome then .error .oddLength else .error (.badByte a)
  | a :: b :: rest =>
    match digit? a, digit? b with
    | none, _ => .error (.badByte a)
    | some _, none => .error (.badByte b)
    | some x, some y => (decode rest).map ((x * 16 + y) :: ·)

def ofText (s : String) : Except Error (List UInt8) := decode s.toUTF8.toList

def upperHex (n : Nat) : List Char := (hexPadded 4 n).map Char.toUpper

def Error.message : Error → String
  | .badByte b =>
    let c := Char.ofNat b.toNat
    "encoding/hex: invalid byte: U+" ++ String.ofList (upperHex b.toNat) ++
      (if isPrintable c then " '" ++ String.singleton c ++ "'" else "")
  | .oddLength => "encoding/hex: odd length hex string"

end Terrain.Text.Hex
