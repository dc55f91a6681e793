import Terrain.Hash.Digest
import Terrain.Segment

/-!
# Programs

A compiled graph: kernel source, the dispatches that run it, the buffers they write and the
parameter table.  `parameterData` packs the parameters into the bytes the kernel reads; binding a
parameter anew never needs another compilation.
-/

namespace Terrain

open Hash (Digest)

structure Parameter where
  slot : Int
  name : String
  shape : Shape
  value : Value
  injected : Bool
deriving DecidableEq, Repr

structure Program where
  source : String
  digest : Digest
  workgroup : Int
  dispatches : List Dispatch
  buffers : List Buffer
  parameters : List Parameter
deriving DecidableEq

/-- dispatches without a data dependency between them; a fence separates stages -/
structure Stage where
  depth : Int
  dispatches : List Dispatch
deriving DecidableEq, Repr

abbrev Bindings := List (String × Value)

/-- groups neighbours of equal depth -/
def stages : List Dispatch → List Stage
  | [] => []
  | d :: rest =>
    match stages rest with
    | [] => [⟨d.depth, [d]⟩]
    | s :: more =>
      if s.depth = d.depth then ⟨s.depth, d :: s.dispatches⟩ :: more
      else ⟨d.depth, [d]⟩ :: s :: more

def overwrite (data : List UInt8) (offset : Nat) (bytes : List UInt8) : List UInt8 :=
  data.take offset ++ bytes ++ data.drop (offset + bytes.length)

namespace Program

def schedule (p : Program) : List Stage := stages p.dispatches

def dispatch? (p : Program) (name : String) : Option Dispatch :=
  p.dispatches.find? (·.name == name)

/-- the injected parameters; of two of one name the later stands -/
def injected (p : Program) : List (String × Parameter) :=
  (p.parameters.filter (·.injected)).foldl
    (fun found q => found.filter (·.1 != q.name) ++ [(q.name, q)]) []

/-- the value of a parameter under bindings, which must have its shape -/
def boundValue (bindings : Bindings) (q : Parameter) : Except CompileError Value :=
  if q.injected then
    match bindings.lookup q.name with
    | some v =>
      if v.shape = q.shape then .ok v
      else .error (.configuration q.name (.boundShape v.shape q.shape))
    | none => .ok q.value
  else .ok q.value

/-- writes the lanes of a value word by word at a slot; offsets are signed 64-bit words -/
def writeLanes (data : List UInt8) (slot : Int) : Nat → List Number.Single → Except Fault (List UInt8)
  | _, [] => .ok data
  | lane, x :: rest =>
    let offset : Int := (16 * slot + 4 * lane : Int).bmod (2 ^ 64)
    if offset < 0 ∨ (data.length : Int) < offset then .error (.slice offset data.length)
    else if (data.length : Int) < offset + 4 then
      .error (.index 3 (data.length - offset.toNat))
    else writeLanes (overwrite data offset.toNat (littleEndian x.bits)) slot (lane + 1) rest

def writeParameters (bindings : Bindings) : List Parameter → List UInt8 → Except Failure (List UInt8)
  | [], data => .ok data
  | q :: rest, data =>
    match boundValue bindings q with
    | .error e => .error (.refused e)
    | .ok v =>
      match writeLanes data q.slot 0 v.lanes.toList with
      | .error f => .error (.fault f)
      | .ok data => writeParameters bindings rest data

/-- the parameter buffer: sixteen bytes a slot, at least one slot -/
def parameterData (p : Program) (bindings : Bindings) : Except Failure (List UInt8) :=
  writeParameters bindings p.parameters (List.replicate (16 * max 1 p.parameters.length) 0)

def text (p : Program) : String :=
  s!"program {p.digest.short} ({p.dispatches.length} dispatches, {p.parameters.length} parameters)"

end Program
end Terrain
