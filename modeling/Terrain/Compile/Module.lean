import Terrain.Compile.Context
import Terrain.Kernel.Index

/-!
# Kernel source

The text of a program: the declarations every program has, the buffers, the index and position
helpers, the library routines, the functions with callees first, and one entry point a dispatch.
-/

namespace Terrain.Compile

open Kernel

structure Module where
  short : String
  parameters : List Parameter
  buffers : List Buffer
  routines : List Routine
  scopes : List Scope
  entries : List (Entry × String)
  workgroup : Int

namespace Module

def segmentDeclaration : String :=
  "struct Segment \x7b\n\toffset: vec3<f32>,\n\tscale: f32,\n\tpermutation_seed: vec3<i32>,\n" ++
  "\tsize: u32,\n\tmodulo_seed: vec3<i32>,\n\tpad: u32,\n\x7d\n\n" ++
  "@group(0) @binding(0) var<uniform> segment: Segment;\n" ++
  "@group(0) @binding(1) var<storage, read> params: array<vec4<f32>>;\n"

def positionHelpers : String :=
  "fn vg_size(r: u32) -> u32 \x7b\n\treturn max(segment.size >> r, 1u);\n\x7d\n\n" ++
  "fn vg_position3(c: vec3<u32>, r: u32) -> vec3<f32> \x7b\n" ++
  "\treturn segment.offset + vec3<f32>(c) * segment.scale * f32(1u << r);\n\x7d\n\n" ++
  "fn vg_position2(c: vec2<u32>, r: u32) -> vec3<f32> \x7b\n" ++
  "\tlet step = segment.scale * f32(1u << r);\n" ++
  "\treturn vec3<f32>(segment.offset.x + f32(c.x) * step, 0.0, " ++
  "segment.offset.z + f32(c.y) * step);\n\x7d\n\n" ++
  "fn vg_seed3() -> vec3<f32> \x7b\n" ++
  "\treturn vec3<f32>(segment.permutation_seed % max(segment.modulo_seed, vec3<i32>(1)));\n\x7d\n"

def parameterComment (p : Parameter) : String :=
  if p.injected then s!"// params[{p.slot}]: {p.name} ({p.shape.name})\n" else ""

def bufferDeclaration (b : Buffer) : String :=
  s!"@group({b.group}) @binding({b.binding}) var<storage, read_write> " ++
    s!"{b.symbol}: array<{b.shape.storageName}>;\n"

def preamble (m : Module) : String :=
  s!"// Generated by voxgraph. Structure {m.short}.\n" ++
    String.join (m.parameters.map parameterComment) ++
    "\n" ++ segmentDeclaration ++ "\n" ++
    String.join (m.buffers.map bufferDeclaration) ++ "\n" ++
    String.join ([Index.encodeHelper 3, Index.decodeHelper 3, Index.encodeHelper 2,
      Index.decodeHelper 2, positionHelpers].map (· ++ "\n"))

def function (s : Scope) : String :=
  s.signature ++ " \x7b\n" ++
    String.join (s.lines.toList.map fun l => "\t" ++ l.text ++ "\n") ++ "\x7d\n\n"

/-- what an entry point writes to a buffer; a truth value is stored as a word -/
def storeLine (i : Nat) (o : Output) : String :=
  if o.shape = .bool then s!"\t{o.buffer}[index] = select(0u, 1u, o{i});\n"
  else s!"\t{o.buffer}[index] = o{i};\n"

def outputLine (i : Nat) (o : Output) : String := s!"\tvar o{i}: {o.shape.typeName};\n"

def outputArgument (i : Nat) (_ : Output) : String := s!"&o{i}"

/-- an entry point finds its cell, leaves when there is none, and stores the function's results -/
def entryPoint (workgroup : Int) (d : Entry) (function : String) : String :=
  let axes := if d.dims = .two then "n * n" else "n * n * n"
  let k := if d.dims = .two then 2 else 3
  s!"@compute @workgroup_size({workgroup})\n" ++
    s!"fn {d.name}(@builtin(global_invocation_id) gid: vec3<u32>, " ++
    "@builtin(num_workgroups) groups: vec3<u32>) \x7b\n" ++
    s!"\tlet index = gid.x + gid.y * groups.x * {workgroup}u;\n" ++
    s!"\tlet n = vg_size({d.reduction}u);\n" ++
    s!"\tif (index >= {axes}) \x7b\n\t\treturn;\n\t\x7d\n" ++
    s!"\tlet position = vg_position{k}(vg_decode{k}(index, n), {d.reduction}u);\n" ++
    String.join (d.outputs.mapIdx outputLine) ++
    s!"\t{function}(" ++
    ", ".intercalate ("position" :: d.outputs.mapIdx outputArgument) ++ ");\n" ++
    String.join (d.outputs.mapIdx storeLine) ++ "\x7d\n\n"

def text (m : Module) : String :=
  m.preamble ++
    String.join (m.routines.map fun r => r.source ++ "\n") ++
    String.join (m.scopes.map function) ++
    String.join (m.entries.map fun (d, f) => entryPoint m.workgroup d f)

end Module
end Terrain.Compile
