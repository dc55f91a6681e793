import Terrain.Error

/-!
# Validation

Runs before any code is generated.  The outputs are checked first, then the graph is walked depth
first from each output in turn.  The walk keeps the path that leads to the node it stands on, so a
cycle is reported with the nodes that form it.
-/

namespace Terrain

def isIdentifierStart (c : Char) : Bool := c = '_' || c.isAlpha
def isIdentifierRest (c : Char) : Bool := isIdentifierStart c || c.isDigit

/-- a letter or underscore, then letters, digits and underscores, all ASCII -/
def isIdentifier (s : String) : Bool :=
  match s.toList with
  | [] => false
  | c :: rest => isIdentifierStart c && rest.all isIdentifierRest

namespace Validate

/-! ## the set of outputs -/

/-- checks names and bindings in order; `seen` are the targets before them -/
def checkTargets (seen : List String) : List Root → Except CompileError (List String)
  | [] => .ok seen
  | r :: rest =>
    if !isIdentifier r.target then .error (.configuration r.target .targetName)
    else if r.target.startsWith cacheStem then .error (.structural none (.reservedOutput r.target))
    else if seen.contains r.target then .error (.structural none (.repeatedOutput r.target))
    else if r.node.isNone then .error (.structural none (.unboundOutput r.target))
    else checkTargets (r.target :: seen) rest

def checkRequired (seen : List String) : List String → Except CompileError Unit
  | [] => .ok ()
  | name :: rest =>
    if seen.contains name then checkRequired seen rest
    else .error (.structural none (.missingOutput name))

/-! ## the walk -/

/-- the loop that closes at `n`; `path` has the last node first -/
def cycleLabels (path : List Node) (n : Node) : List String :=
  let loop := path.takeWhile (·.id != n.id)
  n.label :: (loop.reverse.map Node.label ++ [n.label])

def nodeFault (n : Node) : Option StructureFault :=
  match n.op with
  | .unsupported literal reason => some (.literal literal.display reason)
  | .ref name _ => if n.inputs.isEmpty then some (.dangling name) else none
  | _ => none

/-- walks the inputs of a node from the `i`-th on, by a walk of single nodes -/
def walkInputs (walk : NodeId → List NodeId → Except CompileError (List NodeId)) (n : Node) :
    Nat → List (Option Wire) → List NodeId → Except CompileError (List NodeId)
  | _, [], done => .ok done
  | i, none :: _, _ => .error (.atNode n (.inputMissing i))
  | i, some w :: rest, done =>
    match walk w.source done with
    | .error e => .error e
    | .ok done => walkInputs walk n (i + 1) rest done

/-- walks a node: `path` leads to it, `done` are the nodes already found sound.  A path visits no
node twice, so it is never longer than the graph has nodes, which is what `fuel` counts. -/
def walk (g : Graph) : Nat → List Node → NodeId → List NodeId → Except CompileError (List NodeId)
  | 0, _, _, done => .ok done
  | fuel + 1, path, id, done =>
    match g.get? id with
    | none => .ok done
    | some n =>
      if path.any (·.id == id) then .error (.atNode n (.cycle (cycleLabels path n)))
      else if done.contains id then .ok done
      else match nodeFault n with
        | some fault => .error (.atNode n fault)
        | none =>
          match walkInputs (walk g fuel (n :: path)) n 0 n.inputs done with
          | .error e => .error e
          | .ok done => .ok (id :: done)

/-- a well-known target takes one shape only; a node without a shape is reported later -/
def checkTargetShape (r : Root) (n : Node) : Except CompileError Unit :=
  match targetShape? r.target with
  | some want =>
    if n.shape ≠ want ∧ n.shape.isDefined then .error (.shapeAt n (.target r.target want n.shape))
    else .ok ()
  | none => .ok ()

def walkRoots (g : Graph) : List Root → List NodeId → Except CompileError Unit
  | [], _ => .ok ()
  | r :: rest, done =>
    match r.node.bind g.get? with
    | none => walkRoots g rest done
    | some n =>
      match walk g (g.size + 1) [] n.id done with
      | .error e => .error e
      | .ok done =>
        match checkTargetShape r n with
        | .error e => .error e
        | .ok () => walkRoots g rest done

end Validate

/-- accepts a set of outputs that code can be generated for, or says what is wrong with it -/
def Graph.validate (g : Graph) (roots : List Root) (required : List String) :
    Except CompileError Unit := do
  let seen ← Validate.checkTargets [] roots
  Validate.checkRequired seen required
  Validate.walkRoots g roots []

end Terrain
