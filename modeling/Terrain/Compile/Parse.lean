import Terrain.Compile.Emit
import Terrain.Compile.Module

/-!
# Compiling a graph

A context is used once: `parse` validates the outputs, generates each of them in order and sorts
what was found, callees and prerequisites first; `program` then makes the program.  `compile` does
both on a fresh context.
-/

namespace Terrain.Compile

open Kernel Hash

def emitRoot (g : Graph) (main : DispatchId) (r : Root) : EmitM Unit := do
  match r.node.bind g.get? with
  | none => throw (.fault .missingNode)
  | some n =>
    fold ([Tag.output] ++ Token.str r.target ++ [n.shape.code])
    let s ← emit g n.id
    let output := "out_" ++ r.target
    modify fun c => c.modifyScope rootId fun f =>
      { f.push ⟨0, .store output (.sym s)⟩ with args := f.args ++ [⟨output, n.shape, true⟩] }
    addOutput main r.target n.shape

def emitRoots (g : Graph) (roots : List Root) : EmitM Unit := do
  let options := (← get).options
  let workgroup := options.workgroupSize
  if Options.maxWorkgroup < workgroup then
    refuse (.configuration "workgroup" (.range workgroup 1 Options.maxWorkgroup))
  match g.validate roots options.requiredOutputs with
  | .error e => refuse e
  | .ok () => pure ()
  fold ([Tag.workgroup] ++ Token.u32 (UInt32.ofInt workgroup))
  let main ← newDispatch mainDispatch .three 0 rootId
  pushScope rootId
  roots.forM (emitRoot g main)
  popScope
  let left := (← get).stack.length
  if left ≠ 0 then refuse (.openScopes left)

/-- callees before callers, prerequisites before what reads them; ties keep their order -/
def arrange (c : Context) : Context :=
  { c with
    arranged := some (c.found.mergeSort fun a b => (c.scope b).depth ≤ (c.scope a).depth)
    dispatches := c.dispatches.mergeSort fun a b => (c.entry b).depth ≤ (c.entry a).depth }

def setPhase (p : Phase) : EmitM Unit := modify fun c => { c with phase := p }

def parse (g : Graph) (roots : List Root) : EmitM Unit := do
  if (← get).phase ≠ .created then refuse .alreadyUsed
  setPhase .parsing
  onRefusal (emitRoots g roots) (setPhase .failed)
  modify arrange
  setPhase .sorted

def Context.module (c : Context) : Module where
  short := c.stream.digest.short
  parameters := c.parameters
  buffers := c.buffers
  routines := Routine.writingOrder c.routines
  scopes := c.writtenScopes.map c.scope
  entries := (c.dispatches.map c.entry).map fun d => (d, (c.scope d.scope).name)
  workgroup := c.options.workgroupSize

def Context.toProgram (c : Context) : Program where
  source := c.module.text
  digest := c.stream.digest
  workgroup := c.options.workgroupSize
  dispatches := c.dispatches.map fun id => (c.entry id).record
  buffers := c.buffers
  parameters := c.parameters

def program : EmitM Program := do
  let c ← get
  match c.phase with
  | .sorted =>
    setPhase .emitted
    return c.toProgram
  | .emitted => refuse .alreadyUsed
  | _ => refuse .notParsed

end Terrain.Compile

namespace Terrain

/-- compiles the outputs of a graph; a failed compilation leaves no program -/
def Graph.compile (g : Graph) (roots : List Root) (options : Compile.Options) :
    Except Failure Program :=
  ((do Compile.parse g roots; Compile.program : Compile.EmitM Program).run
    (Compile.Context.new options)).1

end Terrain
