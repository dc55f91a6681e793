import Terrain.Hash.Sha256
import Terrain.Text.Hex

/-!
# Digests

Thirty-two bytes that identify a structure, and their text: sixty-four lower-case hexadecimal
digits.  Digests are ordered by their bytes, which is the order of their texts.
-/

namespace Terrain.Hash

structure Digest where
  bytes : List UInt8
  length_bytes : bytes.length = 32
deriving DecidableEq

namespace Digest

def ofState (s : Sha256.State) : Digest where
  bytes := s.words.flatMap Sha256.wordBytes
  length_bytes := by simp [Sha256.State.words, Sha256.wordBytes]

def ofMessage (message : List UInt8) : Digest := ofState (Sha256.hash message)

def zero : Digest := ⟨List.replicate 32 0, by simp⟩

instance : Inhabited Digest := ⟨zero⟩

def isZero (d : Digest) : Bool := d == zero

def text (d : Digest) : String := Text.Hex.toText d.bytes

def short (d : Digest) : String := String.ofList ((Text.Hex.encode d.bytes).take 12)

def ofBytes (bytes : List UInt8) : Digest where
  bytes := (bytes ++ List.replicate 32 0).take 32
  length_bytes := by simp

inductive Error where
  | hex (e : Text.Hex.Error)
  | wrongSize (size : Nat)
deriving DecidableEq, Repr

def Error.message : Error → String
  | .hex e => e.message
  | .wrongSize n => s!"hash: want 32 bytes, got {n}"

def parse (s : String) : Except Error Digest :=
  match Text.Hex.ofText s with
  | .error e => .error (.hex e)
  | .ok bytes =>
    if h : bytes.length = 32 then .ok ⟨bytes, h⟩ else .error (.wrongSize bytes.length)

end Digest
end Terrain.Hash
