import Terrain.Shape
import Terrain.Number.Shortest

/-!
# Values and literals

A value is what a parameter slot holds: a shape and four lanes.  It is uploaded with the
parameters and never reaches the generated source.  A literal is what a caller writes; it becomes
a value or is refused.

Whole numbers are stored in a float lane, so they are only accepted where every one of them is
exact: up to `2 ^ 24` in magnitude.
-/

namespace Terrain

open Number (Single Double)

structure Lanes where
  x : Single
  y : Single
  z : Single
  w : Single
deriving DecidableEq, Repr, Inhabited

namespace Lanes

def toList (l : Lanes) : List Single := [l.x, l.y, l.z, l.w]

/-- the first four of a list, missing ones zero -/
def ofList (xs : List Single) : Lanes :=
  ⟨xs.getD 0 .zero, xs.getD 1 .zero, xs.getD 2 .zero, xs.getD 3 .zero⟩

end Lanes

structure Value where
  shape : Shape
  lanes : Lanes
deriving DecidableEq, Repr, Inhabited

namespace Value

def scalar (x : Single) : Value := ⟨.float, .ofList [x]⟩
def vec2 (x y : Single) : Value := ⟨.vec2, .ofList [x, y]⟩
def vec3 (x y z : Single) : Value := ⟨.vec3, .ofList [x, y, z]⟩
def rotation (x y z w : Single) : Value := ⟨.rotation, ⟨x, y, z, w⟩⟩
def int (n : Int) : Value := ⟨.int, .ofList [.ofInt n]⟩
def bool (b : Bool) : Value := ⟨.bool, .ofList [if b then .one else .zero]⟩

def maxExactInt : Int := 16777216

def text (v : Value) : String :=
  let l := v.lanes
  match v.shape with
  | .float => l.x.text
  | .int => toString (Number.toInt32 l.x.datum.truncate?)
  | .bool => if l.x.isZero then "false" else "true"
  | .vec2 => s!"({l.x.text}, {l.y.text})"
  | .vec3 => s!"({l.x.text}, {l.y.text}, {l.z.text})"
  | .rotation => s!"quat({l.x.text}, {l.y.text}, {l.z.text}, {l.w.text})"
  | .undefined _ => "invalid"

end Value

/-! ## literals -/

inductive Literal where
  | nothing
  | double (x : Double)
  | single (x : Single)
  | integer (n : Int)
  | boolean (b : Bool)
  | pair (x y : Single)
  | triple (x y z : Single)
  | quadruple (x y z w : Single)
  | doubles (xs : List Double)
  | value (v : Value)
  | text (s : String)
  | byte (n : UInt8)
deriving DecidableEq, Repr

inductive LiteralError where
  | integerRange (n : Int)
  | listLength (n : Nat)
  | kind (name : String)
  | component (display : String)
deriving DecidableEq, Repr

def LiteralError.message : LiteralError → String
  | .integerRange n => s!"integer {n} is outside ±{Value.maxExactInt}"
  | .listLength n => s!"cannot convert {n}-element list to a value"
  | .kind name => s!"cannot convert {name} to a value"
  | .component display => s!"vector component {display} is not a number"

def Value.checkedInt (n : Int) : Except LiteralError Value :=
  if Value.maxExactInt < n ∨ n < -Value.maxExactInt then .error (.integerRange n)
  else .ok (.int n)

namespace Literal

def kindName : Literal → String
  | .nothing => "<nil>"
  | .text _ => "string"
  | .byte _ => "uint8"
  | _ => ""

def toValue : Literal → Except LiteralError Value
  | .value v => .ok v
  | .single x => .ok (.scalar x)
  | .double x => .ok (.scalar (.ofDouble x))
  | .integer n => Value.checkedInt n
  | .boolean b => .ok (.bool b)
  | .pair x y => .ok (.vec2 x y)
  | .triple x y z => .ok (.vec3 x y z)
  | .quadruple x y z w => .ok (.rotation x y z w)
  | .doubles [x] => .ok (.scalar (.ofDouble x))
  | .doubles [x, y] => .ok (.vec2 (.ofDouble x) (.ofDouble y))
  | .doubles [x, y, z] => .ok (.vec3 (.ofDouble x) (.ofDouble y) (.ofDouble z))
  | .doubles [x, y, z, w] =>
    .ok (.rotation (.ofDouble x) (.ofDouble y) (.ofDouble z) (.ofDouble w))
  | .doubles xs => .error (.listLength xs.length)
  | l => .error (.kind l.kindName)

def display : Literal → String
  | .nothing => "<nil>"
  | .double x => x.text
  | .single x => x.text
  | .integer n => toString n
  | .boolean b => toString b
  | .pair x y => s!"[{x.text} {y.text}]"
  | .triple x y z => s!"[{x.text} {y.text} {z.text}]"
  | .quadruple x y z w => s!"[{x.text} {y.text} {z.text} {w.text}]"
  | .doubles xs => "[" ++ " ".intercalate (xs.map Double.text) ++ "]"
  | .value v => v.text
  | .text s => s
  | .byte n => toString n.toNat

end Literal
end Terrain
