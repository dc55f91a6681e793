import Terrain.Kernel.Expr

/-!
# Templates of nested functions

Loops occur only here, in the fixed bodies of fractal and cellular sampling.  A body works on
local copies of its arguments, and its result is the expression assigned to the output.
-/

namespace Terrain.Kernel

structure Template where
  lines : List Indented
  result : Expr
deriving DecidableEq, Repr

def noiseRoutine (kind : NoiseKind) (point : Shape) : Routine :=
  match kind, point with
  | .value, .vec2 => .value2
  | .value, _ => .value3
  | _, .vec2 => .perlin2
  | _, _ => .perlin3

def scatterRoutine (point : Shape) : Routine :=
  if point = .vec2 then .hash22 else .hash33

open Terrain.Kernel.Expr in
/-- octaves of noise, each of higher frequency and lower amplitude, over the sum of amplitudes;
the arguments are the point, the frequency ratio and the amplitude ratio -/
def fractalTemplate (kind : NoiseKind) (point : Shape) (octaves : Int) : Template :=
  let v (name : String) : Var := .named name
  let sampled :=
    call1 (.routine (noiseRoutine kind point))
      (add (mul (seeded (var (.copy 0)) point) (named "freq"))
        (call1 (.convert point) (mul (call1 (.convert .float) (named "i")) (literal "17.0"))))
  { lines :=
      [⟨0, .start (v "sum") (literal "0.0")⟩,
       ⟨0, .start (v "amp") (literal "1.0")⟩,
       ⟨0, .start (v "freq") (literal "1.0")⟩,
       ⟨0, .start (v "norm") (literal "0.0")⟩,
       ⟨0, .loop (v "i") 0 .less octaves⟩,
       ⟨1, .assign (v "sum") (add (named "sum") (mul (named "amp") sampled))⟩,
       ⟨1, .assign (v "norm") (add (named "norm") (named "amp"))⟩,
       ⟨1, .assign (v "amp") (mul (named "amp") (var (.copy 2)))⟩,
       ⟨1, .assign (v "freq") (mul (named "freq") (var (.copy 1)))⟩,
       ⟨0, .close⟩]
    result := div (named "sum") (named "norm") }

def cellResult : CellFeature → Expr
  | .second => .named "f2"
  | .gap => .sub (.named "f2") (.named "f1")
  | _ => .named "f1"

open Terrain.Kernel.Expr in
/-- the smallest and second smallest distance to a feature point, over the cells around the point;
one loop an axis, the last axis outermost -/
def cellularTemplate (metric : Metric) (feature : CellFeature) (point : Shape) : Template :=
  let axes := laneNames.take point.lanes
  let v (name : String) : Var := .named name
  let n := axes.length
  let loops := axes.reverse.mapIdx fun i axis =>
    (⟨i, .loop (v ("o" ++ axis)) (-1) .lessEqual 1⟩ : Indented)
  let casts := axes.map fun axis => call1 (.convert .float) (named ("o" ++ axis))
  let offset := match casts with
    | [x, y] => call2 (.convert point) x y
    | [x, y, z] => call3 (.convert point) x y z
    | _ => call0 (.convert point)
  let inner : List Indented :=
    [⟨n, .letVar (v "o") offset⟩,
     ⟨n, .letVar (v "delta")
        (sub (add (named "o")
          (call1 (.routine (scatterRoutine point)) (add (named "cell") (named "o"))))
          (named "local"))⟩,
     ⟨n, .letVar (v "d") (Expr.metric metric (named "delta") point)⟩,
     ⟨n, .test (less (named "d") (named "f1"))⟩,
     ⟨n + 1, .assign (v "f2") (named "f1")⟩,
     ⟨n + 1, .assign (v "f1") (named "d")⟩,
     ⟨n, .otherwise (less (named "d") (named "f2"))⟩,
     ⟨n + 1, .assign (v "f2") (named "d")⟩,
     ⟨n, .close⟩]
  let closes := (List.range n).reverse.map fun i => (⟨i, .close⟩ : Indented)
  { lines :=
      [⟨0, .letVar (v "sp") (seeded (var (.copy 0)) point)⟩,
       ⟨0, .letVar (v "cell") (call1 (.unary .floor) (named "sp"))⟩,
       ⟨0, .letVar (v "local") (sub (named "sp") (named "cell"))⟩,
       ⟨0, .start (v "f1") (literal "1e9")⟩,
       ⟨0, .start (v "f2") (literal "1e9")⟩] ++ loops ++ inner ++ closes
    result := cellResult feature }

end Terrain.Kernel
