import Terrain.Hash.Digest

/-!
# The structure stream

Every discrete choice that shapes the generated code is folded into one stream of bytes, and the
digest of that stream names the structure of a program.  Values that are only known at run time
are never folded, so editing them keeps the digest.

Tokens are fixed-width big-endian integers and texts behind a 32-bit length, so that the tokens
of a stream can be told apart.
-/

namespace Terrain.Hash

/-! ## tokens -/

namespace Token

def u16 (n : UInt16) : List UInt8 := [(n >>> 8).toUInt8, n.toUInt8]

def u32 (n : UInt32) : List UInt8 := Sha256.wordBytes n

def i64 (n : Int64) : List UInt8 :=
  let bits := n.toUInt64
  u32 (bits >>> 32).toUInt32 ++ u32 bits.toUInt32

/-- a text behind the number of its UTF-8 bytes -/
def str (s : String) : List UInt8 :=
  u32 s.utf8ByteSize.toUInt32 ++ s.toUTF8.toList

def bool (b : Bool) : List UInt8 := [if b then 1 else 0]

end Token

/-! ## tags

A tag names a family of nodes or a step of the compilation.  Assigned bytes never change their
meaning: a change would give every known structure another digest. -/

namespace Tag

def position : UInt8 := 0x01
def constant : UInt8 := 0x02
def inject : UInt8 := 0x03
def ref : UInt8 := 0x04

def binary : UInt8 := 0x10
def unary : UInt8 := 0x11
def compare : UInt8 := 0x12
def logic : UInt8 := 0x13
def swizzle : UInt8 := 0x14
def construct : UInt8 := 0x15
def cast : UInt8 := 0x16
def broadcast : UInt8 := 0x17
def select : UInt8 := 0x18
def lerp : UInt8 := 0x19
def clamp : UInt8 := 0x1A
def smoothstep : UInt8 := 0x1B
def remap : UInt8 := 0x1C
def rotation : UInt8 := 0x1D
def rotate : UInt8 := 0x1E
def vector : UInt8 := 0x1F

def noise : UInt8 := 0x20
def fractal : UInt8 := 0x21
def primitive : UInt8 := 0x22
def combine : UInt8 := 0x23
def distance : UInt8 := 0x24
def cellular : UInt8 := 0x25
def cache : UInt8 := 0x26

/-- reuse of a symbol that is already bound -/
def backRef : UInt8 := 0x30
def scope : UInt8 := 0x31
/-- call of a nested function that is already defined -/
def scopeCall : UInt8 := 0x32
def dispatch : UInt8 := 0x33
def output : UInt8 := 0x34
def workgroup : UInt8 := 0x35

end Tag

/-! ## streams -/

structure Stream where
  bytes : Array UInt8
deriving DecidableEq

namespace Stream

def version : UInt8 := 1

def empty : Stream := ⟨#[version]⟩

def fold (s : Stream) (token : List UInt8) : Stream := ⟨s.bytes ++ token.toArray⟩

def size (s : Stream) : Nat := s.bytes.size

def digest (s : Stream) : Digest := Digest.ofMessage s.bytes.toList

theorem toList_fold (s : Stream) (token : List UInt8) :
    (s.fold token).bytes.toList = s.bytes.toList ++ token := by
  simp [fold]

end Stream
end Terrain.Hash
