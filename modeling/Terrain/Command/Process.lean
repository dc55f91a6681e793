import Terrain.Command.Run

/-!
# Processes

A command line from its words to what it leaves behind.
-/

namespace Terrain.Command

structure Exit where
  code : UInt32
  output : String
  error : Option CommandError

variable {m : Type → Type} [Monad m]

/-- runs one command after others: its outcome, its output, and the shell after it -/
def step (files : FileAccess m) (network : Network m) (cwd : String) (i : Invocation)
    (shell : Shell) : m (Except CommandError Unit × Shell) :=
  (run files network cwd i).run.run { shell with output := "" }

def CommandError.report (e : CommandError) : String := "Error: " ++ e.message

def execute (files : FileAccess m) (network : Network m) (cwd : String) (words : List String) :
    m Exit := do
  match parseFlags words with
  | .error e => return ⟨e.exitCode, "", none⟩
  | .ok i =>
    match ← step files network cwd i ⟨"", .initial⟩ with
    | (.ok (), shell) => return ⟨0, shell.output, none⟩
    | (.error e, shell) => return ⟨1, shell.output, some e⟩

end Terrain.Command
