import Terrain.Number.Numeral

/-!
# The command line

Flags start with one hyphen or two and come before the argument.  A flag that is on or off may have
a value after an equals sign; any other takes it from there or from the next word.
-/

namespace Terrain.Command

structure Invocation where
  verbosity : Int
  config : String
  source : String
  metadata : String
  serve : Bool
  address : String
  remote : String
  schedule : Bool
  check : Bool
  listOps : Bool
  definition : Bool
  fetch : String
  graph : String
deriving DecidableEq, Repr

def Invocation.plain : Invocation :=
  ⟨0, "", "", "", false, "", "", false, false, false, false, "", ""⟩

inductive Flag where
  | text (set : Invocation → String → Invocation)
  | switch (set : Invocation → Bool → Invocation)
  | number (set : Invocation → Int → Invocation)

def flags : List (String × Flag) :=
  [("v", .number fun i n => { i with verbosity := n }),
   ("config", .text fun i s => { i with config := s }),
   ("o", .text fun i s => { i with source := s }),
   ("meta", .text fun i s => { i with metadata := s }),
   ("serve", .switch fun i b => { i with serve := b }),
   ("addr", .text fun i s => { i with address := s }),
   ("remote", .text fun i s => { i with remote := s }),
   ("schedule", .switch fun i b => { i with schedule := b }),
   ("check", .switch fun i b => { i with check := b }),
   ("ops", .switch fun i b => { i with listOps := b }),
   ("proto", .switch fun i b => { i with definition := b }),
   ("fetch", .text fun i s => { i with fetch := s })]

inductive UsageError where
  | help
  | malformed
deriving DecidableEq, Repr

/-- help is no failure -/
def UsageError.exitCode : UsageError → UInt32
  | help => 0
  | malformed => 2

def switchValue? (s : String) : Option Bool :=
  if ["1", "t", "T", "true", "TRUE", "True"].contains s then some true
  else if ["0", "f", "F", "false", "FALSE", "False"].contains s then some false
  else none

def flagParts? (word : String) : Option (String × Option String) :=
  let body := match word.toList with
    | '-' :: '-' :: rest => rest
    | '-' :: rest => rest
    | _ => []
  match body with
  | [] => none
  | c :: rest =>
    if c == '-' || c == '=' then none
    else
      let name := String.ofList (c :: rest.takeWhile (· != '='))
      match rest.dropWhile (· != '=') with
      | _ :: value => some (name, some (String.ofList value))
      | [] => some (name, none)

def isArgument (word : String) : Bool := !word.startsWith "-" || word == "-"

def setFlag (i : Invocation) (flag : Flag) (value : String) : Except UsageError Invocation :=
  match flag with
  | .text set => .ok (set i value)
  | .switch set => match switchValue? value with
    | some b => .ok (set i b)
    | none => .error .malformed
  | .number set =>
    match Number.readSigned Number.readPrefixed value.toList with
    | some n => .ok (set i n)
    | none => .error .malformed

def readWords (i : Invocation) : List String → Except UsageError Invocation
  | [] => .ok i
  | word :: rest =>
    if word == "--" then arguments i rest
    else if isArgument word then arguments i (word :: rest)
    else match flagParts? word with
      | none => .error .malformed
      | some (name, value) =>
        match flags.lookup name, value, rest with
        | none, _, _ => .error (if name == "h" || name == "help" then .help else .malformed)
        | some flag, some value, rest => do readWords (← setFlag i flag value) rest
        | some (.switch set), none, rest => readWords (set i true) rest
        | some flag, none, value :: rest => do readWords (← setFlag i flag value) rest
        | some _, none, [] => .error .malformed
where
  arguments (i : Invocation) : List String → Except UsageError Invocation
    | [] => .ok i
    | [graph] => .ok { i with graph }
    | _ => .error .malformed

def parseFlags (words : List String) : Except UsageError Invocation := readWords .plain words

end Terrain.Command
