import Terrain.Value

/-!
# Operators

The closed choices a node can be built from.  Each choice has a byte that is folded into the
structure of a program; a byte that stands for no choice is kept and refused when shapes are
worked out.
-/

namespace Terrain

/-! ## arithmetic -/

inductive BinaryOp where
  | add | sub | mul | div | mod | min | max | pow
  | unknown (code : Unassigned 8)
deriving DecidableEq, Repr

namespace BinaryOp

def code : BinaryOp → UInt8
  | add => 1 | sub => 2 | mul => 3 | div => 4 | mod => 5 | min => 6 | max => 7 | pow => 8
  | unknown c => c

def ofCode (c : UInt8) : BinaryOp :=
  if h : c = 0 ∨ 8 < c then unknown ⟨c, h⟩
  else if c = 1 then add else if c = 2 then sub else if c = 3 then mul else if c = 4 then div
  else if c = 5 then mod else if c = 6 then min else if c = 7 then max else pow

def name : BinaryOp → String
  | add => "add" | sub => "sub" | mul => "mul" | div => "div"
  | mod => "mod" | min => "min" | max => "max" | pow => "pow"
  | unknown _ => ""

theorem ofCode_code (op : BinaryOp) : ofCode op.code = op := by
  cases op with
  | unknown c => simp [code, ofCode, c.property]
  | _ => rfl

end BinaryOp

inductive UnaryOp where
  | neg | abs | sin | cos | tan | sqrt | exp | log | floor | ceil | fract | round | sign | saturate
  | length | normalize
  | unknown (code : Unassigned 16)
deriving DecidableEq, Repr

namespace UnaryOp

def code : UnaryOp → UInt8
  | neg => 1 | abs => 2 | sin => 3 | cos => 4 | tan => 5 | sqrt => 6 | exp => 7 | log => 8
  | floor => 9 | ceil => 10 | fract => 11 | round => 12 | sign => 13 | saturate => 14
  | length => 15 | normalize => 16
  | unknown c => c

def ofCode (c : UInt8) : UnaryOp :=
  if h : c = 0 ∨ 16 < c then unknown ⟨c, h⟩
  else if c = 1 then neg else if c = 2 then abs else if c = 3 then sin else if c = 4 then cos
  else if c = 5 then tan else if c = 6 then sqrt else if c = 7 then exp else if c = 8 then log
  else if c = 9 then floor else if c = 10 then ceil else if c = 11 then fract
  else if c = 12 then round else if c = 13 then sign else if c = 14 then saturate
  else if c = 15 then length else normalize

def name : UnaryOp → String
  | neg => "neg" | abs => "abs" | sin => "sin" | cos => "cos" | tan => "tan" | sqrt => "sqrt"
  | exp => "exp" | log => "log" | floor => "floor" | ceil => "ceil" | fract => "fract"
  | round => "round" | sign => "sign" | saturate => "saturate" | length => "length"
  | normalize => "normalize"
  | unknown _ => ""

theorem ofCode_code (op : UnaryOp) : ofCode op.code = op := by
  cases op with
  | unknown c => simp [code, ofCode, c.property]
  | _ => rfl

end UnaryOp

/-! ## comparison and logic -/

inductive CompareOp where
  | less | lessEqual | greater | greaterEqual | equal | notEqual
  | unknown (code : Unassigned 6)
deriving DecidableEq, Repr

namespace CompareOp

def code : CompareOp → UInt8
  | less => 1 | lessEqual => 2 | greater => 3 | greaterEqual => 4 | equal => 5 | notEqual => 6
  | unknown c => c

def ofCode (c : UInt8) : CompareOp :=
  if h : c = 0 ∨ 6 < c then unknown ⟨c, h⟩
  else if c = 1 then less else if c = 2 then lessEqual else if c = 3 then greater
  else if c = 4 then greaterEqual else if c = 5 then equal else notEqual

theorem ofCode_code (op : CompareOp) : ofCode op.code = op := by
  cases op with
  | unknown c => simp [code, ofCode, c.property]
  | _ => rfl

end CompareOp

inductive LogicOp where
  | and | or | not
deriving DecidableEq, Repr

def LogicOp.code : LogicOp → UInt8
  | and => 0x26
  | or => 0x7C
  | not => 0x21

/-! ## blends and rotations -/

/-- float functions of a primary operand, to whose shape the others may be widened -/
inductive BlendOp where
  | lerp | clamp | smoothstep | remap
deriving DecidableEq, Repr

namespace BlendOp

def name : BlendOp → String
  | lerp => "lerp" | clamp => "clamp" | smoothstep => "smoothstep" | remap => "remap"

def primary : BlendOp → Nat
  | smoothstep => 2
  | _ => 0

end BlendOp

inductive RotationOp where
  /-- the rotation of XYZ angles in radians -/
  | euler
  | axisAngle
  | rotate
deriving DecidableEq, Repr

namespace RotationOp

def name : RotationOp → String
  | euler => "rotation_euler" | axisAngle => "rotation_axis_angle" | rotate => "rotate"

def operands : RotationOp → List Shape
  | euler => [.vec3]
  | axisAngle => [.vec3, .float]
  | rotate => [.vec3, .rotation]

def result : RotationOp → Shape
  | euler | axisAngle => .rotation
  | rotate => .vec3

end RotationOp

/-! ## sampled fields -/

inductive NoiseKind where
  | value | perlin
  | unknown (code : Unassigned 2)
deriving DecidableEq, Repr

namespace NoiseKind

def code : NoiseKind → UInt8
  | value => 1 | perlin => 2
  | unknown c => c

def ofCode (c : UInt8) : NoiseKind :=
  if h : c = 0 ∨ 2 < c then unknown ⟨c, h⟩ else if c = 1 then value else perlin

def name : NoiseKind → String
  | value => "value" | perlin => "perlin"
  | unknown c => s!"noise({c.val.toNat})"

theorem ofCode_code (k : NoiseKind) : ofCode k.code = k := by
  cases k with
  | unknown c => simp [code, ofCode, c.property]
  | _ => rfl

end NoiseKind

inductive Metric where
  | euclidean | manhattan | chebyshev
  | unknown (code : Unassigned 3)
deriving DecidableEq, Repr

namespace Metric

def code : Metric → UInt8
  | euclidean => 1 | manhattan => 2 | chebyshev => 3
  | unknown c => c

def ofCode (c : UInt8) : Metric :=
  if h : c = 0 ∨ 3 < c then unknown ⟨c, h⟩
  else if c = 1 then euclidean else if c = 2 then manhattan else chebyshev

def name : Metric → String
  | euclidean => "euclidean" | manhattan => "manhattan" | chebyshev => "chebyshev"
  | unknown c => s!"metric({c.val.toNat})"

theorem ofCode_code (m : Metric) : ofCode m.code = m := by
  cases m with
  | unknown c => simp [code, ofCode, c.property]
  | _ => rfl

end Metric

/-- which of the distances to the nearest feature points a cellular field returns -/
inductive CellFeature where
  | nearest | second | gap
  | unknown (code : Unassigned 3)
deriving DecidableEq, Repr

namespace CellFeature

def code : CellFeature → UInt8
  | nearest => 1 | second => 2 | gap => 3
  | unknown c => c

def ofCode (c : UInt8) : CellFeature :=
  if h : c = 0 ∨ 3 < c then unknown ⟨c, h⟩
  else if c = 1 then nearest else if c = 2 then second else gap

def name : CellFeature → String
  | nearest => "f1" | second => "f2" | gap => "f2-f1"
  | unknown c => s!"feature({c.val.toNat})"

theorem ofCode_code (f : CellFeature) : ofCode f.code = f := by
  cases f with
  | unknown c => simp [code, ofCode, c.property]
  | _ => rfl

end CellFeature

/-! ## distance fields -/

inductive Primitive where
  | sphere | box | torus | plane | cylinder
deriving DecidableEq, Repr

namespace Primitive

def code : Primitive → UInt8
  | sphere => 1 | box => 2 | torus => 3 | plane => 4 | cylinder => 5

def ofCode? (c : UInt8) : Option Primitive :=
  [sphere, box, torus, plane, cylinder].find? (·.code == c)

def name : Primitive → String
  | sphere => "sphere" | box => "box" | torus => "torus" | plane => "plane" | cylinder => "cylinder"

def operands : Primitive → List Shape
  | sphere => [.vec3, .float]
  | box => [.vec3, .vec3]
  | torus => [.vec3, .float, .float]
  | plane => [.vec3, .vec3, .float]
  | cylinder => [.vec3, .float, .float]

end Primitive

inductive CombineOp where
  | union | intersection | subtraction
deriving DecidableEq, Repr

namespace CombineOp

def code : CombineOp → UInt8
  | union => 1 | intersection => 2 | subtraction => 3

def ofCode? (c : UInt8) : Option CombineOp :=
  [union, intersection, subtraction].find? (·.code == c)

def name : CombineOp → String
  | union => "union" | intersection => "intersection" | subtraction => "subtraction"

end CombineOp
end Terrain
