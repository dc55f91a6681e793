import Terrain.Graph.Operator
import Terrain.Text.Quoted

/-!
# Node operations and their shapes

`Op` says what a node computes.  `Op.typing` works out the shape of its value from the shapes of
its operands, or the reason why there is none.  A node that has no shape may be built; the reason
is reported when code is generated for it, after its operands have been looked at, so that the
first cause comes first.
-/

namespace Terrain

inductive Op where
  | unsupported (literal : Literal) (reason : LiteralError)
  | position
  | constant (value : Value)
  /-- a named parameter, bound outside or by its own fallback -/
  | inject (name : String) (shape : Shape) (fallback : Option Value)
  | ref (name : String) (shape : Shape)
  | binary (op : BinaryOp)
  | unary (op : UnaryOp)
  | dot
  | cross
  | compare (op : CompareOp)
  | logic (op : LogicOp)
  | swizzle (mask : String)
  | construct
  | cast (target : Shape)
  | broadcast (target : Shape)
  | select
  | blend (op : BlendOp)
  | rotation (op : RotationOp)
  | noise (kind : NoiseKind)
  | fractal (kind : NoiseKind) (octaves : Int)
  | primitive (body : Primitive)
  | combine (op : CombineOp) (smooth : Bool)
  | distance (metric : Metric)
  | cellular (metric : Metric) (feature : CellFeature)
  | cache (reduction : Int)
deriving DecidableEq, Repr

namespace Op

def kind : Op → String
  | unsupported _ _ => "literal"
  | position => "position"
  | constant _ => "constant"
  | inject _ _ _ => "inject"
  | ref _ _ => "ref"
  | binary op => op.name
  | unary op => op.name
  | dot => "dot"
  | cross => "cross"
  | compare _ => "compare"
  | logic _ => "logic"
  | swizzle _ => "swizzle"
  | construct => "construct"
  | cast _ => "cast"
  | broadcast _ => "broadcast"
  | select => "select"
  | blend op => op.name
  | rotation op => op.name
  | noise _ => "noise"
  | fractal _ _ => "fractal"
  | primitive body => body.name
  | combine op smooth => if smooth then "smooth_" ++ op.name else op.name
  | distance _ => "distance"
  | cellular _ _ => "cellular"
  | cache _ => "cache"

end Op

inductive ShapeFault where
  | missingOperand
  | missingComponent
  | unknownOperator (code : UInt8)
  | unknownFunction (code : UInt8)
  | unknownComparison (code : UInt8)
  | unknownNoise (code : UInt8)
  | unknownMetric (code : UInt8)
  | unknownFeature (code : UInt8)
  | arithmetic (op : String) (a b : Shape)
  | notAccepted (op : String) (s : Shape)
  | unequalVectors (op : String) (a b : Shape)
  | crossOperands (s : Shape)
  | comparison (a b : Shape)
  | logicOperand (s : Shape)
  | notSwizzled (s : Shape)
  | swizzleTarget (mask : String) (s : Shape)
  | swizzleComponent (c : Char)
  | swizzleRange (c : Char) (s : Shape)
  | component (s : Shape)
  | castShapes (source target : Shape)
  | broadcastSource (s : Shape)
  | broadcastTarget (s : Shape)
  | condition (s : Shape)
  | branches (a b : Shape)
  | blendOperand (op : String) (i : Nat) (s want : Shape)
  | endpoints (a b : Shape)
  | operand (op : String) (i : Nat) (s want : Shape)
  | notSpatial (op : String) (s : Shape)
  | rates (a b : Shape)
  | combineOperand (op : String) (i : Nat) (s : Shape)
  | points (a b : Shape)
  | notCached (s : Shape)
  | noConstantShape
  | reference (name : String) (declared actual : Shape)
  | target (name : String) (want actual : Shape)
deriving DecidableEq, Repr

open Text in
def ShapeFault.message : ShapeFault → String
  | missingOperand => "missing operand"
  | missingComponent => "missing component"
  | unknownOperator c => s!"unknown operator {c.toNat}"
  | unknownFunction c => s!"unknown function {c.toNat}"
  | unknownComparison c => s!"unknown comparison {c.toNat}"
  | unknownNoise c => s!"unknown noise kind {c.toNat}"
  | unknownMetric c => s!"unknown metric {c.toNat}"
  | unknownFeature c => s!"unknown cell feature {c.toNat}"
  | arithmetic op a b => s!"cannot {op} {a.name} and {b.name}"
  | notAccepted op s => s!"{op} does not accept {s.name}"
  | unequalVectors op a b => s!"{op} needs two vectors of equal width, got {a.name} and {b.name}"
  | crossOperands s => s!"cross needs vec3 operands, got {s.name}"
  | comparison a b =>
    s!"comparison needs two float or two int scalars, got {a.name} and {b.name}"
  | logicOperand s => s!"logic operands must be bool, got {s.name}"
  | notSwizzled s => s!"cannot swizzle {s.name}"
  | swizzleTarget mask s =>
    s!"unsupported {mask.utf8ByteSize}-component swizzle target {quoted mask} on {s.name}"
  | swizzleComponent c => s!"invalid swizzle component {quotedChar c}"
  | swizzleRange c s => s!"component {quotedChar c} is out of range for {s.name}"
  | component s => s!"vector components must be float, got {s.name}"
  | castShapes a b => s!"cannot cast {a.name} to {b.name}"
  | broadcastSource s => s!"can only broadcast float, got {s.name}"
  | broadcastTarget s => s!"cannot broadcast to {s.name}"
  | condition s => s!"select condition must be bool, got {s.name}"
  | branches a b => s!"select branches differ: {a.name} and {b.name}"
  | blendOperand op i s want => s!"{op} operand {i} is {s.name}, want {want.name} or float"
  | endpoints a b => s!"lerp endpoints differ: {a.name} and {b.name}"
  | operand op i s want => s!"{op} operand {i} is {s.name}, want {want.name}"
  | notSpatial op s => s!"{op} input must be 2D or 3D, got {s.name}"
  | rates a b => s!"lacunarity and persistence must be float, got {a.name} and {b.name}"
  | combineOperand op i s => s!"{op} operand {i} must be float, got {s.name}"
  | points a b => s!"distance needs two points of equal shape, got {a.name} and {b.name}"
  | notCached s => s!"cannot cache {s.name}"
  | noConstantShape => "constant has no valid shape"
  | reference name declared actual =>
    s!"reference {quoted name} declared {declared.name}, resolved to {actual.name}"
  | target name want actual =>
    s!"output {quoted name} must be {want.name}, got {actual.name}"

/-! ## rules -/

abbrev Typing := Except ShapeFault Shape

/-- the shape of an elementwise combination; a float scalar spreads over a vector -/
def elementwise? (allowInt : Bool) (a b : Shape) : Option Shape :=
  if a = b ∧ a.isFloatLike then some a
  else if a = b ∧ a = .int ∧ allowInt then some .int
  else if a = .float ∧ b.isVector then some b
  else if b = .float ∧ a.isVector then some a
  else none

def UnaryOp.typing (op : UnaryOp) (s : Shape) : Typing :=
  match op with
  | .unknown c => .error (.unknownFunction c)
  | .neg | .abs =>
    if s.isFloatLike ∨ s = .int then .ok s else .error (.notAccepted op.name s)
  | .length => if s.isVector then .ok .float else .error (.notAccepted op.name s)
  | .normalize => if s.isVector then .ok s else .error (.notAccepted op.name s)
  | _ => if s.isFloatLike then .ok s else .error (.notAccepted op.name s)

/-- the first operand that is not `want`, counted from `i` -/
def firstOther (want : Shape) : Nat → List Shape → Option (Nat × Shape)
  | _, [] => none
  | i, s :: rest => if s = want then firstOther want (i + 1) rest else some (i, s)

def firstMismatch : Nat → List Shape → List Shape → Option (Nat × Shape × Shape)
  | i, s :: rest, w :: wants =>
    if s = w then firstMismatch (i + 1) rest wants else some (i, s, w)
  | _, _, _ => none

def laneIndex? : Char → Option Nat
  | 'x' => some 0
  | 'y' => some 1
  | 'z' => some 2
  | 'w' => some 3
  | _ => none

def swizzleFault (s : Shape) : List Char → Option ShapeFault
  | [] => none
  | c :: rest =>
    match laneIndex? c with
    | none => some (.swizzleComponent c)
    | some i => if i < s.lanes then swizzleFault s rest else some (.swizzleRange c s)

def swizzleTyping (mask : String) (s : Shape) : Typing :=
  if s.isVector ∨ s = .rotation then
    match Shape.ofLanes? mask.utf8ByteSize with
    | none => .error (.swizzleTarget mask s)
    | some out =>
      match swizzleFault s mask.toList with
      | some fault => .error fault
      | none => .ok out
  else .error (.notSwizzled s)

/-- the first operand that is neither `want` nor a float -/
def firstUnblended (want : Shape) : Nat → List Shape → Option (Nat × Shape)
  | _, [] => none
  | i, s :: rest =>
    if s = want ∨ s = .float then firstUnblended want (i + 1) rest else some (i, s)

def BlendOp.typing (op : BlendOp) (shapes : List Shape) : Typing :=
  let result := shapes.getD op.primary .none
  if result.isFloatLike then
    match firstUnblended result 0 shapes with
    | some (i, s) => .error (.blendOperand op.name i s result)
    | none =>
      let far := shapes.getD 1 .none
      if op = .lerp ∧ far ≠ result then .error (.endpoints result far) else .ok result
  else .error (.notAccepted op.name result)

def Primitive.typing (body : Primitive) (shapes : List Shape) : Typing :=
  -- a sphere is also measured in the plane
  let wanted := match body, shapes with
    | .sphere, .vec2 :: _ => [.vec2, .float]
    | _, _ => body.operands
  match firstMismatch 0 shapes wanted with
  | some (i, s, want) => .error (.operand body.name i s want)
  | none => .ok .float

def Op.typingOf (op : Op) (shapes : List Shape) : Typing :=
  match op, shapes with
  | .unsupported _ _, _ => .ok .none
  | .position, _ => .ok .vec3
  | .constant v, _ => .ok v.shape
  | .inject _ s _, _ => .ok s
  | .ref _ s, _ => .ok s
  | .binary op, [a, b] =>
    match op with
    | .unknown c => .error (.unknownOperator c)
    | _ =>
      match elementwise? (op != .pow) a b with
      | some s => .ok s
      | none => .error (.arithmetic op.name a b)
  | .unary op, [s] => op.typing s
  | .dot, [a, b] =>
    if a = b ∧ a.isVector then .ok .float else .error (.unequalVectors "dot" a b)
  | .cross, [a, b] =>
    if a = b ∧ a.isVector then
      if a = .vec3 then .ok .vec3 else .error (.crossOperands a)
    else .error (.unequalVectors "cross" a b)
  | .compare op, [a, b] =>
    match op with
    | .unknown c => .error (.unknownComparison c)
    | _ => if a = b ∧ (a = .float ∨ a = .int) then .ok .bool else .error (.comparison a b)
  | .logic _, shapes =>
    match firstOther .bool 0 shapes with
    | some (_, s) => .error (.logicOperand s)
    | none => .ok .bool
  | .swizzle mask, [s] => swizzleTyping mask s
  | .construct, shapes =>
    match firstOther .float 0 shapes with
    | some (_, s) => .error (.component s)
    | none => .ok ((Shape.ofLanes? shapes.length).getD .none)
  | .cast target, [s] =>
    if s = target ∨ (s.isScalar ∧ target.isScalar) then .ok target
    else .error (.castShapes s target)
  | .broadcast target, [s] =>
    if s = .float then
      if target.isVector then .ok target else .error (.broadcastTarget target)
    else .error (.broadcastSource s)
  | .select, [c, a, b] =>
    if c = .bool then
      if a = b ∧ a.isDefined then .ok a else .error (.branches a b)
    else .error (.condition c)
  | .blend op, shapes => op.typing shapes
  | .rotation op, shapes =>
    match firstMismatch 0 shapes op.operands with
    | some (i, s, want) => .error (.operand op.name i s want)
    | none => .ok op.result
  | .noise kind, [s] =>
    match kind with
    | .unknown c => .error (.unknownNoise c)
    | _ => if s.isVector then .ok .float else .error (.notSpatial "noise" s)
  | .fractal kind _, [p, lacunarity, persistence] =>
    if p.isVector then
      match kind with
      | .unknown c => .error (.unknownNoise c)
      | _ =>
        if lacunarity = .float ∧ persistence = .float then .ok .float
        else .error (.rates lacunarity persistence)
    else .error (.notSpatial "fractal" p)
  | .primitive body, shapes => body.typing shapes
  | .combine _ _, shapes =>
    match firstOther .float 0 shapes with
    | some (i, s) => .error (.combineOperand op.kind i s)
    | none => .ok .float
  | .distance metric, [a, b] =>
    match metric with
    | .unknown c => .error (.unknownMetric c)
    | _ => if a = b ∧ a.isFloatLike then .ok .float else .error (.points a b)
  | .cellular metric feature, [p] =>
    if p.isVector then
      match metric, feature with
      | .unknown c, _ => .error (.unknownMetric c)
      | _, .unknown c => .error (.unknownFeature c)
      | _, _ => .ok .float
    else .error (.notSpatial "cellular" p)
  | .cache _, [s] => if s = .bool ∨ s.isDefined = false then .error (.notCached s) else .ok s
  | _, _ => .error .missingOperand

def presentShapes : List (Option Shape) → Option (List Shape)
  | [] => some []
  | none :: _ => none
  | some s :: rest => (presentShapes rest).map (s :: ·)

def Op.typing (op : Op) (operands : List (Option Shape)) : Typing :=
  match presentShapes operands with
  | some shapes => op.typingOf shapes
  | none =>
    match op with
    | .construct => .error .missingComponent
    | _ => .error .missingOperand

end Terrain
