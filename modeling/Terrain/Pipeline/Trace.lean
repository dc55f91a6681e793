import Terrain.Pipeline.Generator

/-!
# Device calls as text

A line for each call.  The dispatches of one stage reach the device in any order, so neighbouring
dispatches are listed in the order of their lines, and two runs that differ only in that order read
the same.
-/

namespace Terrain.Pipeline

/-- the line of a call; `fences` is the number of fences so far, this one counted -/
def Call.line (fences : Nat) : Call → String
  | upload d size => s!"upload {d.short} {size.toNat}"
  | uniforms d _ _ => "uniforms " ++ d.short
  | dispatch _ name grid => s!"dispatch {name} {grid.x.toNat}x{grid.y.toNat}x{grid.z.toNat}"
  | fence => s!"fence {fences}"
  | readback _ buffer => "readback " ++ buffer.name
  | release d => "release " ++ d.short

def Call.labels (fences : Nat) : Call → List String
  | upload _ _ => ["upload"]
  | uniforms _ _ _ => ["uniforms"]
  | dispatch _ name _ => ["dispatch", "dispatch:" ++ name]
  | fence => ["fence", s!"fence:{fences}"]
  | readback _ buffer => ["readback:" ++ buffer.name]
  | release _ => ["release"]

def Call.isDispatch : Call → Bool
  | dispatch _ _ _ => true
  | _ => false

namespace Trace

def fences (t : Trace) : Nat := t.countP fun a => a.call == .fence

def numbered (fences : Nat) : Trace → List (Bool × String)
  | [] => []
  | a :: rest =>
    let fences := if a.call == .fence then fences + 1 else fences
    (a.call.isDispatch, a.call.line fences) :: numbered fences rest

def lines (t : Trace) : List String :=
  (((numbered 0 t).splitBy fun a b => a.1 && b.1).map fun block =>
    (block.map Prod.snd).mergeSort fun a b => a ≤ b).flatten

def written? (t : Trace) : Option (List UInt8 × List UInt8) :=
  t.findSome? fun a =>
    match a.call with
    | .uniforms _ segment parameters => some (segment, parameters)
    | _ => none

end Trace

def Device.failingAt (label : String) : Device := fun trace call =>
  if (call.labels (trace.fences + 1)).contains label then some ("device lost: " ++ label) else none

namespace Event

def trace (events : List Event) : Trace := events.map Event.attempt

def perDevice (events : List Event) : List (String × Trace) :=
  ((events.map Event.device).eraseDups).map fun name =>
    (name, trace (events.filter (·.device == name)))

end Event
end Terrain.Pipeline
