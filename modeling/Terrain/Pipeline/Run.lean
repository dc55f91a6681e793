import Terrain.Pipeline.State

/-!
# Staged execution

A run takes one segment through the program of a state.  The stages of the schedule follow each
other with a fence between them, and one more stands before the buffers are read back.  The
dispatches of a stage do not depend on each other: all of them are enqueued, in whatever order and
whichever fails.

Nothing is asked of the device before the size is known to fit every dispatch.
-/

namespace Terrain.Pipeline

open Hash (Digest)

inductive RunError where
  | noSize
  | grid (failure : Failure)
  | disposed
  | upload (failure : String)
  | uniforms (failure : String)
  | fence (stage : Option Nat) (failure : String)
  | stage (index : Nat) (depth : Int) (failure : String)
deriving DecidableEq, Repr

def RunError.message : RunError → String
  | noSize => "configuration: \"size\": segment size must be positive"
  | grid failure => failure.message
  | disposed => "upload: pipeline state disposed"
  | upload failure => "upload: " ++ failure
  | uniforms failure => "uniforms: " ++ failure
  | fence (some i) failure => s!"fence before stage {i}: {failure}"
  | fence none failure => "fence before readback: " ++ failure
  | stage i depth failure => s!"stage {i} (depth {depth}): {failure}"

def RunError.blame : RunError → Blame
  | noSize => .configuration
  | grid failure => failure.blame
  | _ => .other

structure Readback where
  target : String
  symbol : String
  failure : Option String
deriving DecidableEq, Repr

structure RunResult where
  digest : Digest
  segment : Segment
  outputs : List Readback

namespace RunResult

def targets (r : RunResult) : List String := r.outputs.map Readback.target

def wait (r : RunResult) : Except String (List (String × String)) :=
  r.outputs.mapM fun b =>
    match b.failure with
    | some failure => .error s!"readback {b.target}: {failure}"
    | none => .ok (b.target, b.symbol)

end RunResult

/-! ## the steps of a run -/

abbrev RunM := ExceptT RunError (StateM Trace)

def must (device : Device) (call : Call) (error : String → RunError) : RunM Unit := do
  match ← (ask device call : StateM Trace _) with
  | some failure => throw (error failure)
  | none => pure ()

/-- makes calls whatever each of them answers; the first failure counts -/
def askAll (device : Device) : List Call → StateM Trace (Option String)
  | [] => return none
  | call :: rest => do
    let failure ← ask device call
    let later ← askAll device rest
    return failure <|> later

/-- the call that enqueues a dispatch; the size fits it -/
def dispatchCall (p : Program) (size : UInt32) (d : Dispatch) : Call :=
  .dispatch p.digest d.name ((d.grid size p.workgroup).toOption.getD ⟨0, 0, 0⟩)

abbrev Arrivals := Stage → List Dispatch

def runStage (device : Device) (arrivals : Arrivals) (p : Program) (size : UInt32) (i : Nat)
    (stage : Stage) : RunM Unit := do
  match ← (askAll device ((arrivals stage).map (dispatchCall p size)) : StateM Trace _) with
  | some failure => throw (.stage i stage.depth failure)
  | none => pure ()

/-- the stages from the `i`-th on, with a fence before each but the first -/
def runStages (device : Device) (arrivals : Arrivals) (p : Program) (size : UInt32) :
    Nat → List Stage → RunM Unit
  | _, [] => pure ()
  | i, stage :: rest => do
    if 0 < i then must device .fence (.fence (some i))
    runStage device arrivals p size i stage
    runStages device arrivals p size (i + 1) rest

def readbacks (device : Device) (p : Program) : List Buffer → StateM Trace (List Readback)
  | [] => return []
  | b :: rest => do
    let failure ← ask device (.readback p.digest b)
    return ⟨b.name, b.symbol, failure⟩ :: (← readbacks device p rest)

def outputBuffers (p : Program) : List Buffer := p.buffers.filter (·.dispatch == mainDispatch)

/-- is there anything to run, and does it fit the device? -/
def checkSize (p : Program) (size : UInt32) : Except RunError Unit :=
  if size = 0 then .error .noSize
  else p.dispatches.forM fun d => (d.checkGrid size p.workgroup).mapError .grid

def runUploaded (device : Device) (arrivals : Arrivals) (s : ExecutionState) (segment : Segment) :
    RunM RunResult := do
  let p := s.program
  let segment := { segment with seed := s.seed }
  must device (.uniforms p.digest segment.bytes s.parameters) .uniforms
  runStages device arrivals p segment.size 0 p.schedule
  must device .fence (.fence none)
  let outputs ← (readbacks device p (outputBuffers p) : StateM Trace _)
  return ⟨p.digest, segment, outputs⟩

namespace ExecutionState

def ensureUploaded (s : ExecutionState) (name : String) (device : Device) (size : UInt32) :
    RunM ExecutionState := do
  if s.disposed then throw .disposed
  if s.uploads.contains ⟨name, size⟩ then return s
  must device (.upload s.program.digest size) .upload
  return { s with uploads := s.uploads ++ [⟨name, size⟩] }

/-- runs one segment on the device `name`: the outcome, the state after it and the calls made -/
def runIn (s : ExecutionState) (arrivals : Arrivals) (name : String) (device : Device)
    (segment : Segment) : Except RunError RunResult × ExecutionState × Trace :=
  match checkSize s.program segment.size with
  | .error e => (.error e, s, [])
  | .ok () =>
    match (s.ensureUploaded name device segment.size).run.run [] with
    | (.error e, trace) => (.error e, s, trace)
    | (.ok uploaded, trace) =>
      let (result, trace) := (runUploaded device arrivals uploaded segment).run.run trace
      (result, uploaded, trace)

def run (s : ExecutionState) (name : String) (device : Device) (segment : Segment) :
    Except RunError RunResult × ExecutionState × Trace :=
  s.runIn Stage.dispatches name device segment

end ExecutionState
end Terrain.Pipeline
