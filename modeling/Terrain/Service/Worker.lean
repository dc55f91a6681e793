/-!
# The worker

Compiles are done one after another by one worker.  A job that crashes does not take the worker
with it; a stopped worker takes no more jobs.
-/

namespace Terrain.Service

inductive Outcome (ε α : Type) where
  | done (a : α)
  | failed (e : ε)
  | crashed (reason : String)

inductive WorkError (ε : Type) where
  | job (e : ε)
  | crashed (reason : String)
  | stopped

def WorkError.message {ε : Type} (text : ε → String) : WorkError ε → String
  | job e => text e
  | crashed reason => "compile panicked: " ++ reason
  | stopped => "compile worker stopped"

structure Worker where
  stopped : Bool
deriving DecidableEq, Repr

namespace Worker

def running : Worker := ⟨false⟩
def stop (_ : Worker) : Worker := ⟨true⟩

variable {σ ε α : Type}

def perform (w : Worker) (job : σ → Outcome ε α × σ) (shared : σ) :
    Except (WorkError ε) α × σ :=
  if w.stopped then (.error .stopped, shared)
  else match job shared with
    | (.done a, shared) => (.ok a, shared)
    | (.failed e, shared) => (.error (.job e), shared)
    | (.crashed reason, shared) => (.error (.crashed reason), shared)

theorem perform_of_stopped {w : Worker} (h : w.stopped = true) (job : σ → Outcome ε α × σ)
    (shared : σ) : w.perform job shared = (.error .stopped, shared) := by
  simp [perform, h]

end Worker
end Terrain.Service
