import Terrain.Error

/-!
# Flat indices

A work item's flat index and its coordinate on a cubic grid are two forms of one number: axis `k`
has stride `size ^ k`, so

    index = c₀ + c₁ * size + c₂ * size * size
    cₖ    = (index / size ^ k) % size

`encode` and `decode` compute on the host in wrapping words; `encodeExpr` and `decodeExpr` are the
same formula as an expression, from which the kernel's helper functions are written.
-/

namespace Terrain.Kernel.Index

/-! ## on the host -/

/-- adds the terms of the axes from `k` on; `stride` is `size ^ k` -/
def encodeFrom (size : UInt32) (point : List UInt32) :
    Nat → Nat → UInt32 → UInt32 → Except Fault UInt32
  | 0, _, _, index => .ok index
  | axes + 1, k, stride, index =>
    match point[k]? with
    | none => .error (.index k point.length)
    | some x => encodeFrom size point axes (k + 1) (stride * size) (index + x * stride)

def encode (dims : Nat) (point : List UInt32) (size : UInt32) : Except Fault UInt32 :=
  encodeFrom size point dims 0 1 0

def decodeFrom (index size : UInt32) : Nat → UInt32 → Except Fault (List UInt32)
  | 0, _ => .ok []
  | axes + 1, stride =>
    if stride = 0 ∨ size = 0 then .error .divisionByZero
    else (decodeFrom index size axes (stride * size)).map (index / stride % size :: ·)

def decode (dims : Nat) (index size : UInt32) : Except Fault (List UInt32) :=
  decodeFrom index size dims 1

/-! ## in the kernel -/

inductive WordExpr where
  | axis (k : Nat)
  | index
  | size
  | add (a b : WordExpr)
  | mul (a b : WordExpr)
  | div (a b : WordExpr)
  | rem (a b : WordExpr)
  | group (e : WordExpr)
deriving DecidableEq, Repr

def axisName (k : Nat) : String := ["x", "y", "z"].getD k ""

def WordExpr.text : WordExpr → String
  | axis k => "c." ++ axisName k
  | index => "i"
  | size => "n"
  | add a b => a.text ++ " + " ++ b.text
  | mul a b => a.text ++ " * " ++ b.text
  | div a b => a.text ++ " / " ++ b.text
  | rem a b => a.text ++ " % " ++ b.text
  | group e => "(" ++ e.text ++ ")"

def timesSize (e : WordExpr) : Nat → WordExpr
  | 0 => e
  | k + 1 => .mul (timesSize e k) .size

def encodeExpr : Nat → WordExpr
  | 0 => .axis 0
  | k + 1 => .add (encodeExpr k) (timesSize (.axis (k + 1)) (k + 1))

def decodeExpr : Nat → WordExpr
  | 0 => .rem .index .size
  | k + 1 => .rem (.group (.div .index (.group (timesSize .size k)))) .size

def vectorType (dims : Nat) : String := s!"vec{dims}<u32>"

/-- the helper that flattens a coordinate, for at least one axis -/
def encodeHelper (dims : Nat) : String :=
  s!"fn vg_encode{dims}(c: {vectorType dims}, n: u32) -> u32 \x7b\n\treturn " ++
    (encodeExpr (dims - 1)).text ++ ";\n\x7d\n"

def decodeHelper (dims : Nat) : String :=
  s!"fn vg_decode{dims}(i: u32, n: u32) -> {vectorType dims} \x7b\n\treturn {vectorType dims}(" ++
    ", ".intercalate ((List.range dims).map fun k => (decodeExpr k).text) ++ ");\n\x7d\n"

end Terrain.Kernel.Index
