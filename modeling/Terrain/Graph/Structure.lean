import Terrain.Graph.Basic
import Terrain.Hash.Stream

/-!
# The structure of a node

The bytes that a node folds into the structure stream: the tag of its family, then every discrete
choice that changes the code generated for it.  Values of constants and parameters are not among
them.

A family that names the shape of an operand cannot go on where that operand is missing: the bytes
stop there, and `Node.structureComplete` says so.
-/

namespace Terrain

open Hash

/-- the codes of the operands' shapes, up to the first that is missing -/
def leadingShapes : List (Option Wire) → List UInt8
  | some w :: rest => w.shape.code :: leadingShapes rest
  | _ => []

namespace Op

def blendTag : BlendOp → UInt8
  | .lerp => Tag.lerp
  | .clamp => Tag.clamp
  | .smoothstep => Tag.smoothstep
  | .remap => Tag.remap

def rotationTag : RotationOp → UInt8
  | .rotate => Tag.rotate
  | _ => Tag.rotation

def namedOperands (op : Op) (arity : Nat) : Nat :=
  match op with
  | .dot | .cross | .compare _ | .cast _ | .primitive _ | .distance _ => 1
  | .blend _ => arity
  | _ => 0

end Op

def RotationOp.routineName : RotationOp → String
  | .euler => "vg_quat_euler"
  | .axisAngle => "vg_quat_axis_angle"
  | .rotate => "vg_quat_rotate"

namespace Node

/-- the dimensions of the sampling point, zero for a node without a shape -/
def dims (n : Node) : Dims :=
  match n.typing with
  | .ok _ => ((n.inputShape 0).dims?).getD ⟨0⟩
  | .error _ => ⟨0⟩

def operandBytes (n : Node) : List UInt8 :=
  leadingShapes (n.inputs.take (n.op.namedOperands n.inputs.length))

def structureBytes (n : Node) : List UInt8 :=
  match n.op with
  | .unsupported _ _ => []
  | .position => [Tag.position]
  | .constant v => [Tag.constant, v.shape.code]
  | .inject name s _ => [Tag.inject, s.code] ++ Token.str name
  | .ref _ s => [Tag.ref, s.code]
  | .binary op => [Tag.binary, op.code, n.shape.code]
  | .unary op => [Tag.unary, op.code, n.shape.code]
  | .dot => [Tag.vector, 0] ++ n.operandBytes
  | .cross => [Tag.vector, 1] ++ n.operandBytes
  | .compare op => [Tag.compare, op.code] ++ n.operandBytes
  | .logic op => [Tag.logic, op.code]
  | .swizzle mask => [Tag.swizzle] ++ Token.str mask
  | .construct => [Tag.construct, n.inputs.length.toUInt8]
  | .cast target =>
    -- the target follows the operand's shape, and is not reached without it
    if n.operandBytes.isEmpty then [Tag.cast] else [Tag.cast] ++ n.operandBytes ++ [target.code]
  | .broadcast _ => [Tag.broadcast, n.shape.code]
  | .select => [Tag.select, n.shape.code]
  | .blend op => [Op.blendTag op, n.shape.code] ++ n.operandBytes
  | .rotation op => [Op.rotationTag op] ++ Token.str op.routineName
  | .noise kind => [Tag.noise, kind.code, n.dims.count]
  | .fractal kind octaves =>
    [Tag.fractal, kind.code, n.dims.count] ++ Token.u16 (UInt16.ofInt octaves)
  | .primitive body => [Tag.primitive, body.code] ++ n.operandBytes
  | .combine op smooth => [Tag.combine, op.code] ++ Token.bool smooth
  | .distance metric => [Tag.distance, metric.code] ++ n.operandBytes
  | .cellular metric feature => [Tag.cellular, n.dims.count, metric.code, feature.code]
  | .cache reduction => [Tag.cache] ++ Token.u16 (UInt16.ofInt reduction) ++ [n.shape.code]

def structureComplete (n : Node) : Bool :=
  n.operandBytes.length == n.op.namedOperands n.inputs.length

end Node
end Terrain
