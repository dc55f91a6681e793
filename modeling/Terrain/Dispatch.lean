import Terrain.Error

/-!
# Dispatches and buffers

An entry point of a program runs once for every cell of a grid over the volume, coarser by a power
of two where it is reduced.  What the device counts in fixed-width words is counted so here, and
`invocationCount` is the same count without a bound.

A device takes at most `maxWorkgroups` workgroups along an axis; what does not fit spills into
rows, and the entry point flattens row and column back into one index.
-/

namespace Terrain

structure Dispatch where
  name : String
  /-- deeper dispatches run first -/
  depth : Int
  dims : Dims
  reduction : Int
  outputs : Option (List String)
  buffers : Option (List String)
deriving DecidableEq, Repr

structure Buffer where
  name : String
  symbol : String
  group : Int
  binding : Int
  shape : Shape
  dims : Dims
  reduction : Int
  dispatch : String
deriving DecidableEq, Repr

/-- the dispatch over the whole volume; its buffers are the outputs of a program -/
def mainDispatch : String := "voxels"

def maxReduction : Int := 8

def maxWorkgroups : UInt64 := 65535

/-- the edge of a volume at a reduction, at least one; a shift outside the word clears it -/
def reducedSize (size : UInt32) (r : Int) : UInt32 :=
  let n := if 0 ≤ r ∧ r < 32 then size >>> r.toNat.toUInt32 else 0
  if n = 0 then 1 else n

/-- the number of cells of a volume, without a bound -/
def invocationCount (dims : Dims) (size : UInt32) (r : Int) : Nat :=
  (reducedSize size r).toNat ^ (if dims = .two then 2 else 3)

namespace Buffer

def elements (b : Buffer) (size : UInt32) : UInt32 :=
  let n := reducedSize size b.reduction
  if b.dims = .two then n * n else n * n * n

def elementSize (b : Buffer) : Nat :=
  match b.shape with
  | .vec2 => 8
  | .vec3 | .rotation => 16
  | _ => 4

end Buffer

structure Grid where
  x : UInt32
  y : UInt32
  z : UInt32
deriving DecidableEq, Repr

namespace Dispatch

def invocations (d : Dispatch) (size : UInt32) : UInt64 :=
  let n := (reducedSize size d.reduction).toUInt64
  if d.dims = .two then n * n else n * n * n

def workgroups (d : Dispatch) (size : UInt32) (workgroup : Int) : Except Fault UInt64 :=
  let w := UInt64.ofInt workgroup
  if w = 0 then .error .divisionByZero else .ok ((d.invocations size + w - 1) / w)

def gridOf (n : UInt64) : Grid :=
  let x := min n maxWorkgroups
  if x = 0 then ⟨0, 0, 0⟩
  else ⟨x.toUInt32, (min ((n + x - 1) / x) 4294967295).toUInt32, 1⟩

def grid (d : Dispatch) (size : UInt32) (workgroup : Int) : Except Fault Grid :=
  (d.workgroups size workgroup).map gridOf

/-- can a volume of this size be dispatched?  The index of a work item must fit a word, and the
rows an axis. -/
def checkGrid (d : Dispatch) (size : UInt32) (workgroup : Int) : Except Failure Unit :=
  let n := d.invocations size
  if 4294967295 < n then
    .error (.refused (.configuration "size" (.invocations d.name n.toNat size.toNat)))
  else match d.grid size workgroup with
    | .error f => .error (.fault f)
    | .ok g =>
      if 65535 < g.y then
        .error (.refused
          (.configuration "size" (.workgroups d.name g.x.toNat g.y.toNat size.toNat)))
      else .ok ()

end Dispatch
end Terrain
