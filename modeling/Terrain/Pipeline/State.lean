import Terrain.Pipeline.Device

/-!
# Execution states

An execution state belongs to one program: it holds the seed, the parameter buffer and the devices
that the program was uploaded to.  Once it is disposed it is never uploaded again.
-/

namespace Terrain.Pipeline

structure Upload where
  device : String
  size : UInt32
deriving DecidableEq, Repr

structure ExecutionState where
  program : Program
  seed : Seed
  parameters : List UInt8
  uploads : List Upload
  disposed : Bool
deriving DecidableEq

namespace ExecutionState

def create (program : Program) (seed : Seed) (values : Bindings) :
    Except Failure ExecutionState := do
  return ⟨program, seed, ← program.parameterData values, [], false⟩

/-- packs the parameters anew; the program must have the digest of the old one -/
def refresh (s : ExecutionState) (program : Program) (values : Bindings) :
    Except Failure ExecutionState := do
  return { s with program, parameters := ← program.parameterData values }

def devices (s : ExecutionState) : List String := (s.uploads.map Upload.device).eraseDups

/-- frees the program on every device that holds it: the state after that, and the calls made -/
def dispose (s : ExecutionState) (device : String → Device) :
    ExecutionState × List (String × Attempt) :=
  if s.disposed then (s, [])
  else
    let call := Call.release s.program.digest
    ({ s with uploads := [], disposed := true },
      s.devices.map fun name => (name, ⟨call, device name [] call⟩))

end ExecutionState
end Terrain.Pipeline
