/-!
# Library routines

Fixed helper functions that generated code calls.  Only the routines that some node asked for are
written, each after the ones it calls.

* `Library.require`   adds a routine with everything it depends on to a set;
* `Library.order`     the order in which a set of routines is written.
-/

namespace Terrain.Kernel

inductive Routine where
  | hashU32
  | hash2
  | hash3
  | hash22
  | hash33
  | value2
  | value3
  | grad2
  | grad3
  | perlin2
  | perlin3
  | sdfBox
  | sdfTorus
  | sdfCylinder
  | smoothMin
  | smoothMax
  | quatAxisAngle
  | quatEuler
  | quatRotate
  | cacheIndex
deriving DecidableEq, Repr

namespace Routine

def all : List Routine :=
  [hashU32, hash2, hash3, hash22, hash33, value2,
   value3, grad2, grad3, perlin2, perlin3, sdfBox,
   sdfTorus, sdfCylinder, smoothMin, smoothMax, quatAxisAngle, quatEuler,
   quatRotate, cacheIndex]

theorem mem_all (r : Routine) : r ∈ all := by
  cases r <;> decide

def name : Routine → String
  | hashU32 => "vg_hash_u32"
  | hash2 => "vg_hash2"
  | hash3 => "vg_hash3"
  | hash22 => "vg_hash22"
  | hash33 => "vg_hash33"
  | value2 => "vg_value2"
  | value3 => "vg_value3"
  | grad2 => "vg_grad2"
  | grad3 => "vg_grad3"
  | perlin2 => "vg_perlin2"
  | perlin3 => "vg_perlin3"
  | sdfBox => "vg_sdf_box"
  | sdfTorus => "vg_sdf_torus"
  | sdfCylinder => "vg_sdf_cylinder"
  | smoothMin => "vg_smooth_min"
  | smoothMax => "vg_smooth_max"
  | quatAxisAngle => "vg_quat_axis_angle"
  | quatEuler => "vg_quat_euler"
  | quatRotate => "vg_quat_rotate"
  | cacheIndex => "vg_cache_index"

def ofName? (s : String) : Option Routine := all.find? (·.name == s)

def calls : Routine → List Routine
  | hash2 => [hashU32]
  | hash3 => [hashU32]
  | hash22 => [hash2]
  | hash33 => [hash3]
  | value2 => [hash2]
  | value3 => [hash3]
  | grad2 => [hash2]
  | grad3 => [hash33]
  | perlin2 => [grad2]
  | perlin3 => [grad3]
  | smoothMax => [smoothMin]
  | _ => []

def rank : Routine → Nat
  | hash2 => 1
  | hash3 => 1
  | hash22 => 2
  | hash33 => 2
  | value2 => 2
  | value3 => 2
  | grad2 => 2
  | grad3 => 3
  | perlin2 => 3
  | perlin3 => 4
  | smoothMax => 1
  | _ => 0

theorem rank_lt_of_mem_calls {r d : Routine} (h : d ∈ r.calls) : d.rank < r.rank := by
  cases r <;> simp [calls] at h <;> subst h <;> decide

def source : Routine → String
  | hashU32 =>
    "fn vg_hash_u32(x: u32) -> u32 \x7b\n" ++
    "\tlet s = x * 747796405u + 2891336453u;\n" ++
    "\tlet w = ((s >> ((s >> 28u) + 4u)) ^ s) * 277803737u;\n" ++
    "\treturn (w >> 22u) ^ w;\n" ++
    "\x7d\n"
  | hash2 =>
    "fn vg_hash2(p: vec2<f32>) -> f32 \x7b\n" ++
    "\tlet q = bitcast<vec2<u32>>(vec2<i32>(floor(p)));\n" ++
    "\treturn f32(vg_hash_u32(q.x ^ vg_hash_u32(q.y))) / 4294967295.0;\n" ++
    "\x7d\n"
  | hash3 =>
    "fn vg_hash3(p: vec3<f32>) -> f32 \x7b\n" ++
    "\tlet q = bitcast<vec3<u32>>(vec3<i32>(floor(p)));\n" ++
    "\treturn f32(vg_hash_u32(q.x ^ vg_hash_u32(q.y ^ vg_hash_u32(q.z)))) / 4294967295.0;\n" ++
    "\x7d\n"
  | hash22 =>
    "fn vg_hash22(p: vec2<f32>) -> vec2<f32> \x7b\n" ++
    "\treturn vec2<f32>(vg_hash2(p), vg_hash2(p + vec2<f32>(127.0, 311.0)));\n" ++
    "\x7d\n"
  | hash33 =>
    "fn vg_hash33(p: vec3<f32>) -> vec3<f32> \x7b\n" ++
    "\treturn vec3<f32>(\n" ++
    "\t\tvg_hash3(p),\n" ++
    "\t\tvg_hash3(p + vec3<f32>(127.0, 311.0, 74.0)),\n" ++
    "\t\tvg_hash3(p + vec3<f32>(269.0, 183.0, 246.0))\n" ++
    "\t);\n" ++
    "\x7d\n"
  | value2 =>
    "fn vg_value2(p: vec2<f32>) -> f32 \x7b\n" ++
    "\tlet i = floor(p);\n" ++
    "\tlet f = fract(p);\n" ++
    "\tlet u = f * f * (3.0 - 2.0 * f);\n" ++
    "\tlet a = vg_hash2(i);\n" ++
    "\tlet b = vg_hash2(i + vec2<f32>(1.0, 0.0));\n" ++
    "\tlet c = vg_hash2(i + vec2<f32>(0.0, 1.0));\n" ++
    "\tlet d = vg_hash2(i + vec2<f32>(1.0, 1.0));\n" ++
    "\treturn mix(mix(a, b, u.x), mix(c, d, u.x), u.y) * 2.0 - 1.0;\n" ++
    "\x7d\n"
  | value3 =>
    "fn vg_value3(p: vec3<f32>) -> f32 \x7b\n" ++
    "\tlet i = floor(p);\n" ++
    "\tlet f = fract(p);\n" ++
    "\tlet u = f * f * (3.0 - 2.0 * f);\n" ++
    "\tlet x00 = mix(vg_hash3(i), vg_hash3(i + vec3<f32>(1.0, 0.0, 0.0)), u.x);\n" ++
    "\tlet x10 = mix(vg_hash3(i + vec3<f32>(0.0, 1.0, 0.0)), vg_hash3(i + vec3<f32>(1.0, 1.0, 0.0)), u.x);\n" ++
    "\tlet x01 = mix(vg_hash3(i + vec3<f32>(0.0, 0.0, 1.0)), vg_hash3(i + vec3<f32>(1.0, 0.0, 1.0)), u.x);\n" ++
    "\tlet x11 = mix(vg_hash3(i + vec3<f32>(0.0, 1.0, 1.0)), vg_hash3(i + vec3<f32>(1.0, 1.0, 1.0)), u.x);\n" ++
    "\treturn mix(mix(x00, x10, u.y), mix(x01, x11, u.y), u.z) * 2.0 - 1.0;\n" ++
    "\x7d\n"
  | grad2 =>
    "fn vg_grad2(i: vec2<f32>, f: vec2<f32>) -> f32 \x7b\n" ++
    "\tlet h = vg_hash2(i) * 6.2831853;\n" ++
    "\treturn dot(vec2<f32>(cos(h), sin(h)), f);\n" ++
    "\x7d\n"
  | grad3 =>
    "fn vg_grad3(i: vec3<f32>, f: vec3<f32>) -> f32 \x7b\n" ++
    "\tlet g = normalize(vg_hash33(i) * 2.0 - 1.0 + vec3<f32>(1e-5));\n" ++
    "\treturn dot(g, f);\n" ++
    "\x7d\n"
  | perlin2 =>
    "fn vg_perlin2(p: vec2<f32>) -> f32 \x7b\n" ++
    "\tlet i = floor(p);\n" ++
    "\tlet f = fract(p);\n" ++
    "\tlet u = f * f * f * (f * (f * 6.0 - 15.0) + 10.0);\n" ++
    "\tlet a = vg_grad2(i, f);\n" ++
    "\tlet b = vg_grad2(i + vec2<f32>(1.0, 0.0), f - vec2<f32>(1.0, 0.0));\n" ++
    "\tlet c = vg_grad2(i + vec2<f32>(0.0, 1.0), f - vec2<f32>(0.0, 1.0));\n" ++
    "\tlet d = vg_grad2(i + vec2<f32>(1.0, 1.0), f - vec2<f32>(1.0, 1.0));\n" ++
    "\treturn mix(mix(a, b, u.x), mix(c, d, u.x), u.y) * 1.4142135;\n" ++
    "\x7d\n"
  | perlin3 =>
    "fn vg_perlin3(p: vec3<f32>) -> f32 \x7b\n" ++
    "\tlet i = floor(p);\n" ++
    "\tlet f = fract(p);\n" ++
    "\tlet u = f * f * f * (f * (f * 6.0 - 15.0) + 10.0);\n" ++
    "\tlet x00 = mix(vg_grad3(i, f), vg_grad3(i + vec3<f32>(1.0, 0.0, 0.0), f - vec3<f32>(1.0, 0.0, 0.0)), u.x);\n" ++
    "\tlet x10 = mix(vg_grad3(i + vec3<f32>(0.0, 1.0, 0.0), f - vec3<f32>(0.0, 1.0, 0.0)), vg_grad3(i + vec3<f32>(1.0, 1.0, 0.0), f - vec3<f32>(1.0, 1.0, 0.0)), u.x);\n" ++
    "\tlet x01 = mix(vg_grad3(i + vec3<f32>(0.0, 0.0, 1.0), f - vec3<f32>(0.0, 0.0, 1.0)), vg_grad3(i + vec3<f32>(1.0, 0.0, 1.0), f - vec3<f32>(1.0, 0.0, 1.0)), u.x);\n" ++
    "\tlet x11 = mix(vg_grad3(i + vec3<f32>(0.0, 1.0, 1.0), f - vec3<f32>(0.0, 1.0, 1.0)), vg_grad3(i + vec3<f32>(1.0, 1.0, 1.0), f - vec3<f32>(1.0, 1.0, 1.0)), u.x);\n" ++
    "\treturn mix(mix(x00, x10, u.y), mix(x01, x11, u.y), u.z);\n" ++
    "\x7d\n"
  | sdfBox =>
    "fn vg_sdf_box(p: vec3<f32>, b: vec3<f32>) -> f32 \x7b\n" ++
    "\tlet q = abs(p) - b;\n" ++
    "\treturn length(max(q, vec3<f32>(0.0))) + min(max(q.x, max(q.y, q.z)), 0.0);\n" ++
    "\x7d\n"
  | sdfTorus =>
    "fn vg_sdf_torus(p: vec3<f32>, major: f32, minor: f32) -> f32 \x7b\n" ++
    "\tlet q = vec2<f32>(length(p.xz) - major, p.y);\n" ++
    "\treturn length(q) - minor;\n" ++
    "\x7d\n"
  | sdfCylinder =>
    "fn vg_sdf_cylinder(p: vec3<f32>, r: f32, h: f32) -> f32 \x7b\n" ++
    "\tlet d = abs(vec2<f32>(length(p.xz), p.y)) - vec2<f32>(r, h);\n" ++
    "\treturn min(max(d.x, d.y), 0.0) + length(max(d, vec2<f32>(0.0)));\n" ++
    "\x7d\n"
  | smoothMin =>
    "fn vg_smooth_min(a: f32, b: f32, k: f32) -> f32 \x7b\n" ++
    "\tlet h = clamp(0.5 + 0.5 * (b - a) / max(k, 1e-6), 0.0, 1.0);\n" ++
    "\treturn mix(b, a, h) - k * h * (1.0 - h);\n" ++
    "\x7d\n"
  | smoothMax =>
    "fn vg_smooth_max(a: f32, b: f32, k: f32) -> f32 \x7b\n" ++
    "\treturn -vg_smooth_min(-a, -b, k);\n" ++
    "\x7d\n"
  | quatAxisAngle =>
    "fn vg_quat_axis_angle(axis: vec3<f32>, angle: f32) -> vec4<f32> \x7b\n" ++
    "\treturn vec4<f32>(normalize(axis) * sin(angle * 0.5), cos(angle * 0.5));\n" ++
    "\x7d\n"
  | quatEuler =>
    "fn vg_quat_euler(e: vec3<f32>) -> vec4<f32> \x7b\n" ++
    "\tlet c = cos(e * 0.5);\n" ++
    "\tlet s = sin(e * 0.5);\n" ++
    "\treturn vec4<f32>(\n" ++
    "\t\ts.x * c.y * c.z - c.x * s.y * s.z,\n" ++
    "\t\tc.x * s.y * c.z + s.x * c.y * s.z,\n" ++
    "\t\tc.x * c.y * s.z - s.x * s.y * c.z,\n" ++
    "\t\tc.x * c.y * c.z + s.x * s.y * s.z\n" ++
    "\t);\n" ++
    "\x7d\n"
  | quatRotate =>
    "fn vg_quat_rotate(v: vec3<f32>, q: vec4<f32>) -> vec3<f32> \x7b\n" ++
    "\tlet t = 2.0 * cross(q.xyz, v);\n" ++
    "\treturn v + q.w * t + cross(q.xyz, t);\n" ++
    "\x7d\n"
  | cacheIndex =>
    "fn vg_cache_index(p: vec3<f32>, r: u32) -> u32 \x7b\n" ++
    "\tlet n = vg_size(r);\n" ++
    "\tlet v = vec2<i32>(round((p.xz - segment.offset.xz) / segment.scale));\n" ++
    "\tlet c = clamp(v >> vec2<u32>(r), vec2<i32>(0), vec2<i32>(i32(n) - 1));\n" ++
    "\treturn vg_encode2(vec2<u32>(c), n);\n" ++
    "\x7d\n"

end Routine

/-! ## sets of routines

A library is a table of calls whose chains all end.  The order in which a set is written follows
the names, each routine behind the ones it calls. -/

/-- routines with what each of them calls; a rank that falls along every call rules out loops -/
structure Library (ρ : Type) where
  calls : ρ → List ρ
  rank : ρ → Nat
  falls : ∀ r d, d ∈ calls r → rank d < rank r

namespace Library

variable {ρ : Type} [BEq ρ]

/-- adds a routine with everything it calls to a set; a routine already there brings nothing -/
def require (lib : Library ρ) (set : List ρ) (r : ρ) : List ρ :=
  if set.contains r then set
  else (lib.calls r).attach.foldl (fun set d => lib.require set d.val) (set ++ [r])
termination_by lib.rank r
decreasing_by exact lib.falls r d.val d.property

/-- the routines that have been met, and those that have been written -/
structure Sweep (ρ : Type) where
  done : List ρ
  order : List ρ

/-- marks a routine and writes it behind what it calls, unless it has been met -/
def visit (lib : Library ρ) (s : Sweep ρ) (r : ρ) : Sweep ρ :=
  if s.done.contains r then s
  else
    let s := (lib.calls r).attach.foldl (fun s d => lib.visit s d.val) { s with done := r :: s.done }
    { s with order := s.order ++ [r] }
termination_by lib.rank r
decreasing_by exact lib.falls r d.val d.property

def order (lib : Library ρ) (rs : List ρ) : List ρ := (rs.foldl lib.visit ⟨[], []⟩).order

end Library

def kernelLibrary : Library Routine where
  calls := Routine.calls
  rank := Routine.rank
  falls := fun _ _ h => Routine.rank_lt_of_mem_calls h

def Routine.sorted (rs : List Routine) : List Routine :=
  rs.mergeSort fun a b => a.name ≤ b.name

def Routine.writingOrder (rs : List Routine) : List Routine :=
  kernelLibrary.order (Routine.sorted rs)

end Terrain.Kernel
