/-!
# Shapes

The type of a node's value in the kernel.  Shapes are written into structures and artifacts by a
fixed byte; a byte that no shape has is kept as it is, so that what was asked for can be reported.
-/

namespace Terrain

/-- a byte outside the assigned codes `1 … last` -/
abbrev Unassigned (last : UInt8) := { c : UInt8 // c = 0 ∨ last < c }

inductive Shape where
  | float
  | vec2
  | vec3
  | int
  | bool
  | rotation
  | undefined (code : Unassigned 6)
deriving DecidableEq, Repr

namespace Shape

def code : Shape → UInt8
  | float => 1
  | vec2 => 2
  | vec3 => 3
  | int => 4
  | bool => 5
  | rotation => 6
  | undefined c => c

def ofCode (c : UInt8) : Shape :=
  if h : c = 0 ∨ 6 < c then undefined ⟨c, h⟩
  else if c = 1 then float
  else if c = 2 then vec2
  else if c = 3 then vec3
  else if c = 4 then int
  else if c = 5 then bool
  else rotation

theorem ofCode_code (s : Shape) : ofCode s.code = s := by
  cases s with
  | undefined c => simp [code, ofCode, c.property]
  | _ => rfl

def none : Shape := undefined ⟨0, .inl rfl⟩

instance : Inhabited Shape := ⟨none⟩

def name : Shape → String
  | float => "float"
  | vec2 => "vec2"
  | vec3 => "vec3"
  | int => "int"
  | bool => "bool"
  | rotation => "rotation"
  | undefined c => s!"shape({c.val.toNat})"

def typeName : Shape → String
  | float => "f32"
  | vec2 => "vec2<f32>"
  | vec3 => "vec3<f32>"
  | int => "i32"
  | bool => "bool"
  | rotation => "vec4<f32>"
  | undefined _ => "void"

/-- the element type of a buffer; a truth value cannot be shared with the host and is stored as a
word -/
def storageName : Shape → String
  | bool => "u32"
  | s => s.typeName

def lanes : Shape → Nat
  | float | int | bool => 1
  | vec2 => 2
  | vec3 => 3
  | rotation => 4
  | undefined _ => 0

def isDefined : Shape → Bool
  | undefined _ => false
  | _ => true

def isFloatLike : Shape → Bool
  | float | vec2 | vec3 => true
  | _ => false

def isVector : Shape → Bool
  | vec2 | vec3 => true
  | _ => false

def isScalar : Shape → Bool
  | float | int | bool => true
  | _ => false

def ofLanes? : Nat → Option Shape
  | 1 => some float
  | 2 => some vec2
  | 3 => some vec3
  | _ => Option.none

end Shape

/-! ## dimensions -/

/-- how many axes a dispatch or a sampling point has; only two and three are of use -/
structure Dims where
  count : UInt8
deriving DecidableEq, Repr, Inhabited

namespace Dims

def two : Dims := ⟨2⟩
def three : Dims := ⟨3⟩

def name (d : Dims) : String :=
  if d = two then "2d" else if d = three then "3d" else s!"dims({d.count.toNat})"

end Dims

def Shape.dims? : Shape → Option Dims
  | vec2 => some .two
  | vec3 => some .three
  | _ => Option.none

end Terrain
