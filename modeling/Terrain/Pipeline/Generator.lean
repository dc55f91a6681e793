import Terrain.Artifact.Store
import Terrain.Document.Compile
import Terrain.Pipeline.Run

/-!
# Generators

A generator owns one graph and the program it was last compiled to.  Binding a parameter or a seed
never compiles; a rebuild that fails leaves the program in effect as it was.  The execution state
is made when it is first needed and lives as long as the structure of the program stays the same.

States are numbered in the order they are made.  One that was handed out can still be run when the
generator has moved on, so all of them are kept.
-/

namespace Terrain.Pipeline

open Hash (Digest)

inductive BuildError where
  | document (e : DocumentError)
  | other (text : String)
deriving DecidableEq, Repr

inductive PipelineError where
  | closed
  | noProgram
  | build (e : BuildError)
  | compile (failure : Failure)
  | noParameter (name : String)
  | release (failures : List String)
  | run (e : RunError)
deriving DecidableEq, Repr

open Text in
def PipelineError.message : PipelineError → String
  | closed => "generator closed"
  | noProgram => "generator has no compiled program"
  | build (.document e) => "build graph: " ++ e.message
  | build (.other text) => "build graph: " ++ text
  | compile failure => failure.message
  | noParameter name =>
    (if name.isEmpty then "configuration: " else s!"configuration: {quoted name}: ") ++
      "program has no such parameter"
  | release failures => "\n".intercalate failures
  | run e => e.message

def PipelineError.blame : PipelineError → Blame
  | build (.document e) => e.blame
  | compile failure => failure.blame
  | noParameter _ => .configuration
  | run e => e.blame
  | _ => .other

structure Event where
  device : String
  state : Nat
  attempt : Attempt
deriving DecidableEq

structure Generator where
  options : Compile.Options
  store : Option MemoryStore
  program : Option Program
  values : Bindings
  seed : Seed
  states : Array ExecutionState
  current : Option Nat
  closed : Bool
  log : List Event

namespace Generator

def create (options : Compile.Options) (seed : Seed) (values : Bindings)
    (store : Option MemoryStore) : Generator :=
  ⟨options, store, none, values, seed, #[], none, false, []⟩

def state? (g : Generator) : Option ExecutionState := g.current.bind (g.states[·]?)

def setState (g : Generator) (id : Nat) (s : ExecutionState) : Generator :=
  { g with states := g.states.setIfInBounds id s }

def record (g : Generator) (state : Nat) (calls : List (String × Attempt)) : Generator :=
  { g with log := g.log ++ calls.map fun (device, attempt) => ⟨device, state, attempt⟩ }

/-- binds a value, in place of the one bound before -/
def bind (values : Bindings) (name : String) (v : Value) : Bindings :=
  if values.any (·.1 == name) then values.map fun (n, w) => (n, if n == name then v else w)
  else values ++ [(name, v)]

/-! ## the execution state -/

def state (g : Generator) : Except PipelineError Nat × Generator :=
  if g.closed then (.error .closed, g)
  else match g.program with
    | none => (.error .noProgram, g)
    | some p =>
      match g.current with
      | some id => (.ok id, g)
      | none =>
        match ExecutionState.create p g.seed g.values with
        | .error e => (.error (.compile e), g)
        | .ok s =>
          let id := g.states.size
          (.ok id, { g with states := g.states.push s, current := some id })

def disposeCurrent (g : Generator) (device : String → Device) : List String × Generator :=
  match g.current, g.state? with
  | some id, some s =>
    let (s, calls) := s.dispose device
    (calls.filterMap (·.2.failure), { (g.setState id s).record id calls with current := none })
  | _, _ => ([], { g with current := none })

/-! ## operations -/

/-- the parameters of the program in effect must know the name and the shape -/
def checkParameter (g : Generator) (name : String) (v : Value) : Except PipelineError Unit :=
  match g.program with
  | none => .ok ()
  | some p =>
    match p.injected.lookup name with
    | none => .error (.noParameter name)
    | some q =>
      if q.shape = v.shape then .ok ()
      else .error (.compile (.refused (.configuration name (.boundShape v.shape q.shape))))

/-- packs the parameters of the state in effect, if there is one, under the values in effect -/
def refreshState (g : Generator) (p : Program) : Except PipelineError Unit × Generator :=
  match g.current, g.state? with
  | some id, some s =>
    match s.refresh p g.values with
    | .ok s => (.ok (), g.setState id s)
    | .error e => (.error (.compile e), g)
  | _, _ => (.ok (), g)

/-- binds a parameter; the buffer of the state in effect follows -/
def setParameter (g : Generator) (name : String) (v : Value) :
    Except PipelineError Unit × Generator :=
  match g.checkParameter name v with
  | .error e => (.error e, g)
  | .ok () =>
    let g := { g with values := bind g.values name v }
    match g.state? with
    | some s => g.refreshState s.program
    | none => (.ok (), g)

def setSeed (g : Generator) (seed : Seed) : Generator :=
  let g := { g with seed }
  match g.current, g.state? with
  | some id, some s => g.setState id { s with seed }
  | _, _ => g

/-- after this the generator can only be closed again -/
def close (g : Generator) (device : String → Device) : Except PipelineError Unit × Generator :=
  if g.closed then (.ok (), g)
  else
    let (failures, g) := { g with closed := true }.disposeCurrent device
    (if failures.isEmpty then .ok () else .error (.release failures), g)

structure Rebuilt where
  program : Program
  changed : Bool

/-- puts a compiled program into effect.  Another structure disposes the state, and what the
devices answer then does not count; the same structure only packs the parameters anew. -/
def install (g : Generator) (device : String → Device) (p : Program) :
    Except PipelineError Rebuilt × Generator :=
  if g.closed then (.error .closed, g)
  else
    let changed := match g.program with
      | none => true
      | some old => old.digest ≠ p.digest
    let g := { g with program := some p }
    if changed then (.ok ⟨p, true⟩, (g.disposeCurrent device).2)
    else
      let (result, g) := g.refreshState p
      (result.map fun _ => ⟨p, false⟩, g)

structure Built where
  graph : Graph
  roots : Except BuildError (List Root)

def compileBuilt (options : Compile.Options) (built : Built) : Except PipelineError Program := do
  let roots ← built.roots.mapError .build
  (built.graph.compile roots options).mapError .compile

/-- adds a program to the store, if there is one; a store that refuses it stays as it was -/
def keep (g : Generator) (p : Program) : Generator :=
  { g with store := g.store.map fun s => (s.put (some (.ofProgram p))).toOption.getD s }

/-- builds and compiles the graph again.  The values are those from before the building, which may
itself use the generator. -/
def rebuild (g : Generator) (device : String → Device) (build : Generator → Built × Generator) :
    Except PipelineError Rebuilt × Generator :=
  if g.closed then (.error .closed, g)
  else
    let options := { g.options with bindings := g.values }
    let (built, g) := build g
    match compileBuilt options built with
    | .error e => (.error e, g)
    | .ok p => (g.keep p).install device p

def runState (g : Generator) (id : Nat) (name : String) (device : Device) (segment : Segment) :
    Except PipelineError RunResult × Generator :=
  match g.states[id]? with
  | none => (.error .noProgram, g)
  | some s =>
    let (result, s, trace) := s.run name device segment
    (result.mapError .run, (g.setState id s).record id (trace.map (name, ·)))

def run (g : Generator) (name : String) (device : Device) (segment : Segment) :
    Except PipelineError RunResult × Generator :=
  match g.state with
  | (.error e, g) => (.error e, g)
  | (.ok id, g) => g.runState id name device segment

end Generator
end Terrain.Pipeline
