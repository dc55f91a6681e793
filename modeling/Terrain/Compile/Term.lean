import Terrain.Compile.Context

/-!
# The term of a node

What a node computes, as an expression over the expressions of its operands.  The same function
serves where operands are symbols, as in generated code, and where they are whole expressions.
-/

namespace Terrain.Compile

open Kernel

def termRoutines (n : Node) : List Routine :=
  match n.op with
  | .rotation .euler => [.quatEuler]
  | .rotation .axisAngle => [.quatAxisAngle]
  | .rotation .rotate => [.quatRotate]
  | .noise kind => [noiseRoutine kind (n.inputShape 0)]
  | .primitive .box => [.sdfBox]
  | .primitive .torus => [.sdfTorus]
  | .primitive .cylinder => [.sdfCylinder]
  | .combine .union true => [.smoothMin]
  | .combine _ true => [.smoothMax]
  | _ => []

namespace Term

def apply (f : Callee) : List Expr → Expr
  | [a] => .call1 f a
  | [a, b] => .call2 f a b
  | [a, b, c] => .call3 f a b c
  | _ => .call0 f

def arith (op : BinaryOp) (a b : Expr) : Expr :=
  match op with
  | .add | .sub | .mul | .div | .mod => .op (.arith op) a b
  | _ => .call2 (.binary op) a b

def cast (source target : Shape) (e : Expr) : Expr :=
  match source, target with
  | .float, .bool => .op (.compare .notEqual) e (.literal "0.0")
  | _, .bool => .op (.compare .notEqual) e (.literal "0")
  | .bool, .float => .call3 .select (.literal "0.0") (.literal "1.0") e
  | .bool, _ => .call3 .select (.literal "0") (.literal "1") e
  | _, _ => .call1 (.convert target) e

def blend (op : BlendOp) (es : List Expr) : Expr :=
  match op, es with
  | .lerp, [a, b, t] => .call3 .mix a b t
  | .clamp, [x, low, high] => .call3 .clamp x low high
  | .smoothstep, [low, high, x] => .call3 .smoothstep low high x
  | .remap, [x, inLow, inHigh, outLow, outHigh] =>
    let span (high low : Expr) : Expr := .group (.sub high low)
    .add outLow (.div (.mul (span x inLow) (span outHigh outLow)) (span inHigh inLow))
  | _, _ => .literal ""

def primitive (body : Primitive) (es : List Expr) : Expr :=
  match body, es with
  | .sphere, [p, radius] => .sub (.call1 (.unary .length) p) radius
  | .plane, [p, normal, height] =>
    .add (.call2 .dot p (.call1 (.unary .normalize) normal)) height
  | .box, es => apply (.routine .sdfBox) es
  | .torus, es => apply (.routine .sdfTorus) es
  | .cylinder, es => apply (.routine .sdfCylinder) es
  | _, _ => .literal ""

def combine (op : CombineOp) (smooth : Bool) (es : List Expr) : Expr :=
  let second (b : Expr) : Expr := if op = .subtraction then .neg b else b
  match smooth, es with
  | false, [a, b] =>
    .call2 (.binary (if op = .union then .min else .max)) a (second b)
  | true, [a, b, k] =>
    .call3 (.routine (if op = .union then .smoothMin else .smoothMax)) a (second b) k
  | _, _ => .literal ""

end Term

def widened (n : Node) (es : List Expr) : List Expr :=
  es.mapIdx fun i e => Expr.widen (n.inputShape i) n.shape e

def term (n : Node) (es : List Expr) : Expr :=
  match n.op, es with
  | .binary op, es =>
    match widened n es with
    | [a, b] => Term.arith op a b
    | _ => .literal ""
  | .unary .neg, [a] => .neg a
  | .unary op, [a] => .call1 (.unary op) a
  | .dot, [a, b] => .call2 .dot a b
  | .cross, [a, b] => .call2 .cross a b
  | .compare op, [a, b] => .op (.compare op) a b
  | .logic .not, [a] => .not a
  | .logic .and, [a, b] => .op .and a b
  | .logic .or, [a, b] => .op .or a b
  | .swizzle mask, [v] => .lanes v mask
  | .construct, es => Term.apply (.convert n.shape) es
  | .cast target, [e] => Term.cast (n.inputShape 0) target e
  | .broadcast _, [e] => .widen .float n.shape e
  | .select, [c, a, b] => .call3 .select b a c
  | .blend op, es => Term.blend op (widened n es)
  | .rotation .euler, es => Term.apply (.routine .quatEuler) es
  | .rotation .axisAngle, es => Term.apply (.routine .quatAxisAngle) es
  | .rotation .rotate, es => Term.apply (.routine .quatRotate) es
  | .noise kind, [p] =>
    .call1 (.routine (noiseRoutine kind (n.inputShape 0))) (.seeded p (n.inputShape 0))
  | .primitive body, es => Term.primitive body es
  | .combine op smooth, es => Term.combine op smooth es
  | _, _ => .literal ""

/-- what a nested function is told apart by: two nodes of one key share the function -/
def nestedKey (n : Node) : String :=
  match n.op with
  | .fractal kind octaves => s!"fractal/{kind.name}/{n.dims.name}/{octaves}"
  | .cellular metric feature => s!"cellular/{n.dims.name}/{metric.name}/{feature.name}"
  | _ => ""

end Terrain.Compile
