import Terrain.Dispatch

/-!
# Segments

A segment places one run of a program in the world: where the volume starts, how far apart its
voxels are, how many it has along an edge, and the seed that moves noise.  The host computes
positions and cache cells as the generated helpers do, each operation rounded once.
-/

namespace Terrain

open Number (Single)

structure Triple (α : Type) where
  x : α
  y : α
  z : α
deriving DecidableEq, Repr, Inhabited

namespace Triple

def toList {α : Type} (t : Triple α) : List α := [t.x, t.y, t.z]
def map {α β : Type} (f : α → β) (t : Triple α) : Triple β := ⟨f t.x, f t.y, f t.z⟩
def zipWith {α β γ : Type} (f : α → β → γ) (s : Triple α) (t : Triple β) : Triple γ :=
  ⟨f s.x t.x, f s.y t.y, f s.z t.z⟩

end Triple

structure Seed where
  permutation : Triple Int32
  modulo : Triple Int32
deriving DecidableEq, Repr

instance : Inhabited Seed := ⟨⟨⟨0, 0, 0⟩, ⟨0, 0, 0⟩⟩⟩

/-- the remainder of each permutation by its modulus, a modulus below one counting as one -/
def Seed.offset (s : Seed) : Triple Int32 :=
  s.permutation.zipWith (fun p m => p % (if m < 1 then 1 else m)) s.modulo

structure Segment where
  offset : Triple Single
  scale : Single
  size : UInt32
  seed : Seed
deriving DecidableEq, Repr, Inhabited

def littleEndian (w : UInt32) : List UInt8 :=
  [w.toUInt8, (w >>> 8).toUInt8, (w >>> 16).toUInt8, (w >>> 24).toUInt8]

namespace Segment

/-- the uniform that generated code reads: twelve words, the last of them unused -/
def bytes (s : Segment) : List UInt8 :=
  s.offset.toList.flatMap (fun x => littleEndian x.bits) ++
    littleEndian s.scale.bits ++
    s.seed.permutation.toList.flatMap (fun n => littleEndian n.toUInt32) ++
    littleEndian s.size ++
    s.seed.modulo.toList.flatMap (fun n => littleEndian n.toUInt32) ++
    littleEndian 0

/-- `2 ^ r` as a word; a shift outside the word clears it -/
def stride (r : Int) : UInt32 :=
  if 0 ≤ r ∧ r < 32 then (1 : UInt32) <<< r.toNat.toUInt32 else 0

def position (s : Segment) (c : Triple UInt32) (r : Int) : Triple Single :=
  let step := s.scale.mul (.ofInt (stride r).toNat)
  s.offset.zipWith (fun o k => o.add ((Single.ofInt k.toNat).mul step)) c

/-- an arithmetic shift; outside the word only the sign is left -/
def shiftRight (v : Int32) (r : Int) : Int32 :=
  if 0 ≤ r ∧ r < 32 then v >>> Int32.ofInt r else if v < 0 then -1 else 0

/-- the cell of one axis: a voxel shifted and clamped to `n` cells -/
def clampCell (v : Int32) (r : Int) (n : Int32) : UInt32 :=
  let v := shiftRight v r
  let v := if v < 0 then 0 else v
  (if v < n - 1 then v else n - 1).toUInt32

def snap (p offset scale : Single) : Int32 :=
  Number.toInt32 ((p.sub offset).div scale).datum.round?

/-- the cell of a cache at reduction `r` that a position samples; the position is snapped to the
nearest voxel first, so cells split on whole coordinates -/
def cacheCell (s : Segment) (p : Triple Single) (r : Int) : UInt32 × UInt32 :=
  let n := (reducedSize s.size r).toInt32
  (clampCell (snap p.x s.offset.x s.scale) r n, clampCell (snap p.z s.offset.z s.scale) r n)

end Segment
end Terrain
