import Terrain.Document.Basic

/-!
# What the operations of a document build

Each name of an operation has a number of inputs and says how its attributes become the operation
of a node.
-/

namespace Terrain.Document

structure Recipe where
  inputs : Nat
  make : NodeSpec → Except AttributeFault Op

namespace Recipe

def fixed (inputs : Nat) (op : Op) : Recipe := ⟨inputs, fun _ => .ok op⟩

end Recipe

/-! ## attributes -/

def named {α : Type} (what : String) (name : α → String) (choices : List α) (text : String) :
    Except AttributeFault α :=
  match choices.find? (name · == text) with
  | some a => .ok a
  | none => .error (.unknown what text)

/-- as `named`, where nothing written means the first argument -/
def namedOr {α : Type} (fallback : α) (what : String) (name : α → String) (choices : List α)
    (text : String) : Except AttributeFault α :=
  if text.isEmpty then .ok fallback else named what name choices text

def shapeOf : String → Except AttributeFault Shape :=
  named "shape" Shape.name [.float, .vec2, .vec3, .int, .bool, .rotation]

def noiseOf : String → Except AttributeFault NoiseKind :=
  namedOr .perlin "noise kind" NoiseKind.name [.value, .perlin]

def metricOf : String → Except AttributeFault Metric :=
  namedOr .euclidean "metric" Metric.name [.euclidean, .manhattan, .chebyshev]

def featureOf : String → Except AttributeFault CellFeature :=
  namedOr .nearest "feature" CellFeature.name [.nearest, .second, .gap]

def valueOf (s : Setting) : Except AttributeFault Value := s.toValue.mapError .value

/-- a number as a constant of whole numbers, if it is one that a lane holds exactly -/
def toIntValue (x : Number.Single) : Except AttributeFault Value :=
  let wide := x.toDouble
  match x.datum with
  | .nan => .error (.notWhole wide)
  | .infinite _ => .error (.outside wide)
  | d =>
    if !d.isWhole then .error (.notWhole wide)
    else
      let n := d.truncate?.getD 0
      if Value.maxExactInt < n ∨ n < -Value.maxExactInt then .error (.outside wide)
      else .ok (.int n)

/-- a literal as a constant of another shape; only a number can be one -/
def convert (v : Value) (target : Shape) : Except AttributeFault Value :=
  if v.shape = target then .ok v
  else if v.shape ≠ .float then .error (.conversion v.shape target)
  else match target with
    | .int => toIntValue v.lanes.x
    | .bool => .ok (.bool !v.lanes.x.isZero)
    | _ => .error (.conversion v.shape target)

/-! ## recipes -/

def swizzle : Recipe := ⟨1, fun spec =>
  if spec.mask.isEmpty then .error .noMask else .ok (.swizzle spec.mask)⟩

def cast : Recipe := ⟨1, fun spec => do return .cast (← shapeOf spec.shape)⟩

def broadcast : Recipe := ⟨1, fun spec => do return .broadcast (← shapeOf spec.shape)⟩

def noise : Recipe := ⟨1, fun spec => do return .noise (← noiseOf spec.kind)⟩

def fractal : Recipe := ⟨3, fun spec => do return .fractal (← noiseOf spec.kind) spec.octaves⟩

def distance : Recipe := ⟨2, fun spec => do return .distance (← metricOf spec.metric)⟩

def cellular : Recipe := ⟨1, fun spec => do
  let metric ← metricOf spec.metric
  return .cellular metric (← featureOf spec.feature)⟩

def cache : Recipe := ⟨1, fun spec => .ok (.cache spec.reduction)⟩

/-- a parameter: with a fallback that gives its shape, or with the shape alone -/
def inject : Recipe := ⟨0, fun spec =>
  if spec.name.isEmpty then .error .noName
  else if spec.value.isNull then do
    return .inject spec.name (← shapeOf spec.shape) none
  else do
    let v ← valueOf spec.value
    return .inject spec.name v.shape (some v)⟩

def const : Recipe := ⟨0, fun spec => do
  let v ← valueOf spec.value
  if spec.shape.isEmpty then return .constant v
  return .constant (← convert v (← shapeOf spec.shape))⟩

def recipes : List (String × Recipe) :=
  [BinaryOp.add, .sub, .mul, .div, .mod, .min, .max, .pow].map
    (fun op => (op.name, .fixed 2 (.binary op))) ++
  [UnaryOp.neg, .abs, .sin, .cos, .tan, .sqrt, .exp, .log, .floor, .ceil, .fract, .round, .sign,
      .saturate, .length, .normalize].map
    (fun op => (op.name, .fixed 1 (.unary op))) ++
  [("less", .fixed 2 (.compare .less)),
    ("less_equal", .fixed 2 (.compare .lessEqual)),
    ("greater", .fixed 2 (.compare .greater)),
    ("greater_equal", .fixed 2 (.compare .greaterEqual)),
    ("equal", .fixed 2 (.compare .equal)),
    ("not_equal", .fixed 2 (.compare .notEqual)),
    ("dot", .fixed 2 .dot),
    ("cross", .fixed 2 .cross),
    ("and", .fixed 2 (.logic .and)),
    ("or", .fixed 2 (.logic .or)),
    ("not", .fixed 1 (.logic .not)),
    ("vec2", .fixed 2 .construct),
    ("vec3", .fixed 3 .construct),
    ("select", .fixed 3 .select),
    ("lerp", .fixed 3 (.blend .lerp)),
    ("clamp", .fixed 3 (.blend .clamp)),
    ("smoothstep", .fixed 3 (.blend .smoothstep)),
    ("remap", .fixed 5 (.blend .remap)),
    ("rotation_euler", .fixed 1 (.rotation .euler)),
    ("rotation_axis_angle", .fixed 2 (.rotation .axisAngle)),
    ("rotate", .fixed 2 (.rotation .rotate)),
    ("sphere", .fixed 2 (.primitive .sphere)),
    ("box", .fixed 2 (.primitive .box)),
    ("torus", .fixed 3 (.primitive .torus)),
    ("plane", .fixed 3 (.primitive .plane)),
    ("cylinder", .fixed 3 (.primitive .cylinder)),
    ("union", .fixed 2 (.combine .union false)),
    ("intersection", .fixed 2 (.combine .intersection false)),
    ("subtraction", .fixed 2 (.combine .subtraction false)),
    ("smooth_union", .fixed 3 (.combine .union true)),
    ("smooth_intersection", .fixed 3 (.combine .intersection true)),
    ("smooth_subtraction", .fixed 3 (.combine .subtraction true)),
    ("swizzle", swizzle),
    ("cast", cast),
    ("broadcast", broadcast),
    ("noise", noise),
    ("fractal", fractal),
    ("distance", distance),
    ("cellular", cellular),
    ("cache", cache),
    ("inject", inject),
    ("const", const)]

def recipe? (op : String) : Option Recipe := recipes.lookup op

def opNames : List String := (recipes.map (·.1)).mergeSort (fun a b => decide (a ≤ b))

end Terrain.Document
