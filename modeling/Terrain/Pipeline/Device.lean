import Terrain.Program

/-!
# Device calls

What is asked of a device, and how it answers.  A device is known by what it answers to a call
after the calls before it; nothing else about it matters here.
-/

namespace Terrain.Pipeline

open Hash (Digest)

inductive Call where
  | upload (digest : Digest) (size : UInt32)
  | uniforms (digest : Digest) (segment parameters : List UInt8)
  | dispatch (digest : Digest) (name : String) (grid : Grid)
  | fence
  | readback (digest : Digest) (buffer : Buffer)
  | release (digest : Digest)
deriving DecidableEq

/-- a call that was made; a failure has a text -/
structure Attempt where
  call : Call
  failure : Option String
deriving DecidableEq

abbrev Trace := List Attempt

abbrev Device := Trace → Call → Option String

def Device.reliable : Device := fun _ _ => none

def ask (device : Device) (call : Call) : StateM Trace (Option String) := do
  let failure := device (← get) call
  modify (· ++ [⟨call, failure⟩])
  return failure

end Terrain.Pipeline
