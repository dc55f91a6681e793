import Terrain.Proofs.Run

/-!
# What generating a node does

`emit` generates a node by the rule of its operation.  Here every rule is written once more as a
relation between the context before it and the context after it, in terms of a few changes of a
context, and `emitNode_ran` shows that a successful generation is an instance of one of them.
What holds of every compilation is then shown change by change.

* `Context.declared`, `required`, `remembered` …   the changes;
* `Visits`           the inputs of a node, generated in order;
* `Rule`             the rule of an operation, on a node that is not at hand;
* `Generates`        one generation: the node is at hand, or a rule applies.
-/

namespace Terrain.Compile

open Kernel Hash

variable {ss : List Symbol} {s : Symbol} {spec : Nested} {value : NodeId} {reduction : Int}

/-! ## changes of a context -/

namespace Context

/-- the current function has one more local -/
def declared (c : Context) (shape : Shape) (e : Expr) : Context :=
  { c with names := c.names + 1 }.modifyScope c.current fun s =>
    { s.push ⟨0, .bind (.bound (c.names + 1)) shape e⟩ with bound := s.bound + 1 }

def nextBound (c : Context) : Symbol := .var (.bound (c.names + 1))

def required (c : Context) (r : Routine) : Context :=
  { c with routines := kernelLibrary.require c.routines r }

def requiredAll (c : Context) (rs : List Routine) : Context := rs.foldl required c

def remembered (c : Context) (id : ScopeId) (node : NodeId) (s : Symbol) : Context :=
  c.modifyScope id fun f => { f with symbols := (node, s) :: f.symbols }

def lined (c : Context) (ls : List Indented) : Context :=
  ls.foldl (fun c l => c.modifyScope c.current (·.push l)) c

def constantAdded (c : Context) (id : NodeId) (v : Value) : Context :=
  { c with
    parameters := c.parameters ++ [⟨c.parameters.length, "", v.shape, v, false⟩]
    constantSlots := (id, c.parameters.length) :: c.constantSlots }

def injectedAdded (c : Context) (name : String) (v : Value) : Context :=
  { c with
    parameters := c.parameters ++ [⟨c.parameters.length, name, v.shape, v, true⟩]
    injectedSlots := (name, c.parameters.length) :: c.injectedSlots }

/-- a function is at least this deep -/
def deepened (c : Context) (id : ScopeId) (depth : Int) : Context :=
  c.modifyScope id fun s => if s.depth < depth then { s with depth := depth } else s

/-- the body of a nested function: copies of its arguments, the template, the result -/
def nestedLines (arity : Nat) (t : Template) : List Indented :=
  (List.range arity).map (fun i => ⟨0, .letVar (.copy i) (.var (.input i))⟩) ++ t.lines ++
    [⟨0, .store "out_value" t.result⟩]

/-- the complete nested function of a template -/
def nestedScope (c : Context) (caller : ScopeId) (spec : Nested) (inputs : List Wire)
    (t : Template) : Scope where
  name := s!"{spec.stem}_{c.names + 1}"
  args := (nestedArguments 0 inputs).map fun a =>
    if a.output then (⟨a.name, spec.result, true⟩ : Argument) else a
  lines := (nestedLines inputs.length t).toArray
  depth := (c.scope caller).depth + 1
  dispatch := (c.scope caller).dispatch
  symbols := nestedSymbols 0 inputs []

def nestedAdded (c : Context) (caller : ScopeId) (spec : Nested) (inputs : List Wire)
    (t : Template) : Context :=
  { c with
    names := c.names + 1
    scopes := c.scopes.push (c.nestedScope caller spec inputs t)
    found := c.found ++ [c.scopes.size]
    nested := (spec.key, c.scopes.size) :: c.nested }

/-- the current function calls another one and keeps its result in a new variable -/
def called (c : Context) (function : String) (shape : Shape) (args : List Symbol) : Context :=
  { c with names := c.names + 1 }.modifyScope c.current fun s =>
    { (s.push ⟨0, .declare (.result (c.names + 1)) shape⟩).push
        ⟨0, .call function args (.result (c.names + 1))⟩ with bound := s.bound + 1 }

/-- a dispatch reads a cache once more, which is pushed below it -/
def readAgain (c : Context) (reader id : DispatchId) : Context :=
  ((raiseDepth (c.entries.size + 1) id ((c.entry reader).depth + 1) c).modifyEntry reader
    fun d => { d with reads := d.reads ++ [id] }).fold
      ([Tag.backRef] ++ Token.str (c.entry id).name)

def cacheName (c : Context) : String := s!"cache_{c.names + 1}"

/-- the dispatch of a cache is begun and its function is current -/
def cacheOpened (c : Context) (n : Node) (reader : DispatchId) (reduction : Int) : Context :=
  { c with
    names := c.names + 1
    scopes := c.scopes.push
      { placedScope c.cacheName [⟨"out_value", n.shape, true⟩] with
        dispatch := some c.entries.size }
    stack := c.scopes.size :: c.stack
    found := c.found ++ [c.scopes.size]
    entries := (c.entries.push ⟨c.cacheName, (c.entry reader).depth + 1, .two, reduction, [],
      c.scopes.size, []⟩).modify reader fun d => { d with reads := d.reads ++ [c.entries.size] }
    dispatches := c.dispatches ++ [c.entries.size]
    caches := (n.id, c.entries.size) :: c.caches
    stream := (c.stream.fold ([Tag.dispatch] ++ Token.str c.cacheName ++ [Dims.two.count])).fold
      (Token.u16 (UInt16.ofInt reduction)) }

/-- a dispatch writes one more output to a new buffer -/
def outputAdded (c : Context) (id : DispatchId) (target : String) (shape : Shape) : Context :=
  (c.addBuffer target shape (c.entry id)).modifyEntry id fun e =>
    { e with outputs := e.outputs ++ [⟨target, shape, "buf_" ++ target⟩] }

/-- the value of a cache is stored, its function is left and its buffer is made -/
def cacheClosed (c : Context) (id : DispatchId) (name : String) (shape : Shape) (s : Symbol) :
    Context :=
  { c.lined [⟨0, .store "out_value" (.sym s)⟩] with
    stack := c.stack.tail }.outputAdded id name shape

end Context

/-- the element of a cache's buffer at the world position -/
def sampleExpr (buffer : String) (reduction : Int) : Expr :=
  .sample buffer (.call2 (.routine .cacheIndex) (.var .position) (.literal s!"{reduction}u"))

/-! ## rules -/

/-- is the node computed by one expression over its inputs? -/
def Node.isPlain (n : Node) : Bool :=
  match n.op with
  | .unsupported _ _ | .position | .constant _ | .inject _ _ _ | .ref _ _ => false
  | .distance _ | .fractal _ _ | .cellular _ _ | .cache _ => false
  | .cast target => n.inputShape 0 ≠ target
  | _ => true

/-- the routine, the function and the body of a node that is computed by a nested function -/
def nestedParts (n : Node) : Option (Routine × Nested × Template) :=
  match n.op with
  | .fractal kind octaves =>
    some (noiseRoutine kind (n.inputShape 0), ⟨nestedKey n, "vg_fractal", .float⟩,
      fractalTemplate kind (n.inputShape 0) octaves)
  | .cellular metric feature =>
    some (scatterRoutine (n.inputShape 0), ⟨nestedKey n, "vg_cellular", .float⟩,
      cellularTemplate metric feature (n.inputShape 0))
  | _ => none

section
variable (visit : Visit)

inductive Visits : List (Option Wire) → Context → List Symbol → Context → Prop
  | nil (c : Context) : Visits [] c [] c
  | cons {w : Wire} {ws : List (Option Wire)} {c d c' : Context} {s : Symbol} {ss : List Symbol}
      (head : Ran (visit w.source) c s d) (tail : Visits ws d ss c') :
      Visits (some w :: ws) c (s :: ss) c'

/-- the slot of a constant node -/
inductive ConstantSlot (id : NodeId) (v : Value) : Context → Nat → Context → Prop
  | again {c : Context} {slot : Nat} (known : c.constantSlots.lookup id = some slot) :
      ConstantSlot id v c slot c
  | first {c : Context} (unknown : c.constantSlots.lookup id = none) :
      ConstantSlot id v c c.parameters.length (c.constantAdded id v)

/-- the slot of an injected name -/
inductive InjectedSlot (name : String) (v : Value) : Context → Nat → Context → Prop
  | again {c : Context} {slot : Nat} (known : c.injectedSlots.lookup name = some slot)
      (same : ((c.parameters[slot]?).map Parameter.shape).getD .none = v.shape) :
      InjectedSlot name v c slot c
  | first {c : Context} (unknown : c.injectedSlots.lookup name = none) :
      InjectedSlot name v c c.parameters.length (c.injectedAdded name v)

/-- the nested function that is called: one that is known by its key, or a new one -/
inductive FunctionOf (spec : Nested) (inputs : List Wire) (t : Template) :
    Context → ScopeId → Context → Prop
  | again {c : Context} {id : ScopeId} (known : c.nested.lookup spec.key = some id) :
      FunctionOf spec inputs t c id
        ((c.fold ([Tag.scopeCall] ++ Token.str (c.scope id).name)).deepened id
          (c.currentScope.depth + 1))
  | first {c : Context} (unknown : c.nested.lookup spec.key = none) :
      FunctionOf spec inputs t c c.scopes.size
        ((c.fold ([Tag.scope] ++ Token.str spec.key)).nestedAdded c.current spec inputs t)

/-- the dispatch that computes a cache: one that was begun before, or a new one -/
inductive CacheOf (n : Node) (value : NodeId) (reduction : Int) :
    Context → DispatchId → Context → Prop
  | again {c : Context} {reader id : DispatchId} (reads : c.currentScope.dispatch = some reader)
      (known : c.caches.lookup n.id = some id) :
      CacheOf n value reduction c id (c.readAgain reader id)
  | first {c d : Context} {reader : DispatchId} {s : Symbol}
      (reads : c.currentScope.dispatch = some reader) (unknown : c.caches.lookup n.id = none)
      (body : Ran (visit value) (c.cacheOpened n reader reduction) s d) :
      CacheOf n value reduction c c.entries.size
        (d.cacheClosed c.entries.size c.cacheName n.shape s)

inductive Rule (n : Node) : Context → Symbol → Context → Prop
  | position {c : Context} (op : n.op = .position) (placed : c.currentScope.hasPosition = true) :
      Rule n c (.var .position) c
  | constant {c c' : Context} {v : Value} {slot : Nat} (op : n.op = .constant v)
      (defined : v.shape.isDefined = true) (taken : ConstantSlot n.id v c slot c') :
      Rule n c (.param slot v.shape) c'
  | inject {c c' : Context} {name : String} {shape : Shape} {fallback : Option Value} {v : Value}
      {slot : Nat} (op : n.op = .inject name shape fallback) (named : isIdentifier name = true)
      (bound : (c.options.bindings.lookup name).or fallback = some v) (fits : v.shape = shape)
      (taken : InjectedSlot name v c slot c') :
      Rule n c (.param slot shape) c'
  | ref {c c' : Context} {name : String} {shape : Shape} {w : Wire} {rest : List (Option Wire)}
      {s : Symbol} (op : n.op = .ref name shape) (inputs : n.inputs = some w :: rest)
      (target : Ran (visit w.source) c s c') (fits : w.shape = shape) :
      Rule n c s c'
  | same {c c' : Context} {target : Shape} {s : Symbol} (op : n.op = .cast target)
      (inputs : Visits visit n.inputs c [s] c') (typed : n.typing = .ok n.shape)
      (fits : n.inputShape 0 = target) :
      Rule n c s c'
  | term {c d : Context} {ss : List Symbol} (plain : Node.isPlain n = true)
      (inputs : Visits visit n.inputs c ss d) (typed : n.typing = .ok n.shape) :
      Rule n c d.nextBound
        ((d.requiredAll (termRoutines n)).declared n.shape (Compile.term n (ss.map Expr.sym)))
  | distance {c d : Context} {metric : Metric} {a b : Symbol} (op : n.op = .distance metric)
      (inputs : Visits visit n.inputs c [a, b] d) (typed : n.typing = .ok n.shape) :
      Rule n c (d.declared (n.inputShape 0) (.sub (.sym a) (.sym b))).nextBound
        ((d.declared (n.inputShape 0) (.sub (.sym a) (.sym b))).declared n.shape
          (.metric metric (.sym d.nextBound) (n.inputShape 0)))
  | nested {c d d' e : Context} {r : Routine} {spec : Nested} {t : Template} {ss ss' : List Symbol}
      {callee : ScopeId} (parts : nestedParts n = some (r, spec, t))
      (octaves : ∀ kind k, n.op = .fractal kind k → 1 ≤ k ∧ k ≤ maxOctaves)
      (inputs : Visits visit n.inputs c ss d) (typed : n.typing = .ok n.shape)
      (again : Visits visit n.inputs (d.required r) ss' d')
      (function : FunctionOf spec (n.inputs.filterMap id) t d' callee e) :
      Rule n c (.var (.result (e.names + 1)))
        (e.called (e.scope callee).name spec.result ss')
  | cache {c d : Context} {reduction : Int} {w : Wire} {id : DispatchId} {output : Output}
      {more : List Output} (op : n.op = .cache reduction)
      (range : 0 ≤ reduction ∧ reduction ≤ maxReduction) (inputs : n.inputs = [some w])
      (typed : n.typing = .ok n.shape) (placed : c.currentScope.hasPosition = true)
      (dispatch : CacheOf visit n w.source reduction c id d)
      (made : (d.entry id).outputs = output :: more) :
      Rule n c d.nextBound
        ((d.required .cacheIndex).declared n.shape (sampleExpr output.buffer reduction))

inductive Generates (n : Node) : Context → Symbol → Context → Prop
  | again {c : Context} {s : Symbol} (known : c.currentScope.symbols.lookup n.id = some s) :
      Generates n c s (c.fold ([Tag.backRef] ++ Token.str s.text))
  | first {c d : Context} {s : Symbol} (unknown : c.currentScope.symbols.lookup n.id = none)
      (complete : n.structureComplete = true) (rule : Rule visit n (c.fold n.structureBytes) s d) :
      Generates n c s (d.remembered c.current n.id s)

end

/-! ## small steps -/

theorem outcome_declare (shape : Shape) (e : Expr) (c : Context) :
    outcome (declare shape e) c = (.ok c.nextBound, c.declared shape e) := rfl

theorem outcome_fold (token : List UInt8) (c : Context) :
    outcome (fold token) c = (.ok (), c.fold token) := rfl

theorem outcome_fresh (c : Context) :
    outcome fresh c = (.ok (c.names + 1), { c with names := c.names + 1 }) := rfl

theorem outcome_openScope (s : Scope) (c : Context) :
    outcome (openScope s) c = (.ok c.scopes.size, { c with scopes := c.scopes.push s }) := rfl

theorem outcome_forM_line {α : Type} (f : α → Indented) (xs : List α) (c : Context) :
    outcome (xs.forM fun x => line (f x)) c = (.ok (), c.lined (xs.map f)) := by
  induction xs generalizing c with
  | nil => rfl
  | cons x xs ih => exact ih _

theorem outcome_forM_require (rs : List Routine) (c : Context) :
    outcome (rs.forM require) c = (.ok (), c.requiredAll rs) := by
  induction rs generalizing c with
  | nil => rfl
  | cons r rs ih => exact ih _

theorem modify_push_size {α : Type} (a : Array α) (x : α) (f : α → α) :
    (a.push x).modify a.size f = a.push (f x) := by
  apply Array.ext
  · simp
  · intro i _ _
    simp only [Array.getElem_modify, Array.getElem_push]
    grind

theorem lined_append (c : Context) (ls ms : List Indented) :
    c.lined (ls ++ ms) = (c.lined ls).lined ms := List.foldl_append

theorem lined_push (c : Context) (s : Scope) (stack : List ScopeId) (ls : List Indented) :
    { c with scopes := c.scopes.push s, stack := c.scopes.size :: stack }.lined ls =
      { c with
        scopes := c.scopes.push { s with lines := s.lines ++ ls.toArray }
        stack := c.scopes.size :: stack } := by
  induction ls generalizing s with
  | nil => simp [Context.lined]
  | cons l ls ih =>
    have step :
        { c with scopes := c.scopes.push s, stack := c.scopes.size :: stack }.lined (l :: ls) =
        { c with scopes := c.scopes.push (s.push l), stack := c.scopes.size :: stack }.lined
          ls := by
      show Context.lined { c with
        scopes := (c.scopes.push s).modify c.scopes.size (·.push l)
        stack := c.scopes.size :: stack } ls = _
      rw [modify_push_size]
    rw [step, ih]
    simp [Scope.push]

/-! ## rules of successful generations -/

section
variable {visit : Visit} {n : Node} {c c' : Context}

/-- visits the inputs of a node one after the other, up to one that is missing -/
def visitAll (visit : Visit) (missing : Nat → CompileError) :
    Nat → List (Option Wire) → EmitM (List Symbol)
  | _, [] => return []
  | i, none :: _ => refuse (missing i)
  | i, some w :: ws => do
    let s ← visit w.source
    let more ← visitAll visit missing (i + 1) ws
    return s :: more

theorem emitInputsFrom_eq (i : Nat) (ws : List (Option Wire)) : emitInputsFrom visit n i ws =
    visitAll visit (fun i => .atNode n (.inputMissing i)) i ws := by
  induction ws generalizing i with
  | nil => rfl
  | cons w ws ih =>
    cases w with
    | none => rfl
    | some w => simp only [emitInputsFrom, visitAll, ih]

theorem mapM_visitWire (i : Nat) (ws : List (Option Wire)) : ws.mapM (visitWire visit) =
    visitAll visit (fun _ => .structural none .noNode) i ws := by
  induction ws generalizing i with
  | nil => rfl
  | cons w ws ih =>
    rw [List.mapM_cons]
    cases w with
    | none => rfl
    | some w => simp only [visitWire, visitAll, ih (i + 1)]

theorem visitAll_ran {missing : Nat → CompileError} {i : Nat} {ws : List (Option Wire)}
    (h : Ran (visitAll visit missing i ws) c ss c') : Visits visit ws c ss c' := by
  induction ws generalizing i c ss with
  | nil =>
    obtain ⟨rfl, rfl⟩ := ran_pure.1 h
    exact .nil _
  | cons w ws ih =>
    cases w with
    | none => exact absurd h not_ran_refuse
    | some w =>
      obtain ⟨s, d, head, h⟩ := ran_bind.1 h
      obtain ⟨more, d', tail, h⟩ := ran_bind.1 h
      obtain ⟨rfl, rfl⟩ := ran_pure.1 h
      exact .cons head (ih tail)

theorem Node.shape_eq {σ : Shape} (h : n.typing = .ok σ) : n.shape = σ := by
  simp only [Terrain.Node.shape, h]

theorem emitInputs_ran (h : Ran (emitInputs visit n) c ss c') :
    Visits visit n.inputs c ss c' ∧ n.typing = .ok n.shape := by
  obtain ⟨ss', d, inputs, h⟩ := ran_bind.1 h
  cases typed : n.typing with
  | error fault =>
    rw [typed] at h
    exact absurd h not_ran_refuse
  | ok σ =>
    rw [typed] at h
    obtain ⟨rfl, rfl⟩ := ran_pure.1 h
    rw [emitInputsFrom_eq] at inputs
    exact ⟨visitAll_ran inputs, by rw [Node.shape_eq typed]⟩

theorem emitConstant_ran {v : Value} (op : n.op = .constant v)
    (h : Ran (emitConstant n v) c s c') : Rule visit n c s c' := by
  unfold emitConstant at h
  split at h
  case isFalse => exact absurd h not_ran_refuse
  case isTrue defined =>
    rw [ran_get_bind] at h
    split at h
    case h_1 slot known =>
      obtain ⟨rfl, rfl⟩ := ran_pure.1 h
      exact .constant op defined (.again known)
    case h_2 unknown =>
      obtain ⟨rfl, rfl⟩ := (ran_iff rfl).1 h
      exact .constant op defined (.first unknown)

theorem injectedSlot_ran {name : String} {v : Value} {slot : Nat}
    (h : Ran (injectedSlot name v) c slot c') : InjectedSlot name v c slot c' := by
  unfold injectedSlot at h
  rw [ran_get_bind] at h
  split at h
  case h_1 slot known =>
    dsimp only at h
    split at h
    case isTrue same =>
      obtain ⟨rfl, rfl⟩ := ran_pure.1 h
      exact .again known same
    case isFalse => exact absurd h not_ran_refuse
  case h_2 unknown =>
    obtain ⟨rfl, rfl⟩ := (ran_iff rfl).1 h
    exact .first unknown

theorem emitInject_ran {name : String} {shape : Shape} {fallback : Option Value}
    (op : n.op = .inject name shape fallback)
    (h : Ran (emitInject name shape fallback) c s c') : Rule visit n c s c' := by
  unfold emitInject at h
  split at h
  case isFalse => exact absurd h not_ran_refuse
  case isTrue named =>
    rw [ran_get_bind] at h
    dsimp only at h
    split at h
    case h_1 => exact absurd h not_ran_refuse
    case h_2 v bound =>
      split at h
      case isFalse => exact absurd h not_ran_refuse
      case isTrue fits =>
        obtain ⟨slot, d, taken, h⟩ := ran_bind.1 h
        obtain ⟨rfl, rfl⟩ := ran_pure.1 h
        exact .inject op named bound fits (injectedSlot_ran taken)

theorem outcome_templateBody (t : Template) (c : Context) :
    outcome (templateBody t) c = (.ok t.result, c.lined t.lines) := by
  unfold templateBody
  rw [outcome_bind, outcome_forM_line fun l => l, List.map_id']
  rfl

theorem outcome_nestedBody (arity : Nat) (t : Template) (c : Context) :
    outcome (nestedBody arity (templateBody t)) c =
      (.ok (), c.lined (Context.nestedLines arity t)) := by
  unfold nestedBody Context.nestedLines
  rw [outcome_bind, outcome_forM_line]
  dsimp only
  rw [outcome_bind, outcome_templateBody, lined_append, lined_append]
  rfl

theorem outcome_defineNested (caller : ScopeId) (spec : Nested) (inputs : List Wire) (t : Template)
    (c : Context) :
    outcome (defineNested caller spec inputs (templateBody t)) c =
      (.ok c.scopes.size, c.nestedAdded caller spec inputs t) := by
  let opened : Scope := { c.nestedScope caller spec inputs t with lines := #[] }
  have body := lined_push { c with names := c.names + 1 } opened c.stack
    (Context.nestedLines inputs.length t)
  unfold defineNested
  simp only [outcome_bind, outcome_fresh, outcome_get, outcome_openScope, outcome_inScope,
    outcome_nestedBody, outcome_modify, outcome_pure]
  refine Prod.ext rfl ?_
  refine (congrArg (fun d : Context => { d with
    stack := d.stack.tail
    found := d.found ++ [c.scopes.size]
    nested := (spec.key, c.scopes.size) :: d.nested }) body).trans ?_
  simp only [Array.empty_append, opened]
  rfl

theorem outcome_callNested_again {id : ScopeId} (inputs : List Wire)
    (body : EmitM Expr) (ss : List Symbol) (known : c.nested.lookup spec.key = some id) :
    outcome (callNested spec inputs body ss) c =
      let e := (c.fold ([Tag.scopeCall] ++ Token.str (c.scope id).name)).deepened id
        (c.currentScope.depth + 1)
      (.ok (.var (.result (e.names + 1))), e.called (e.scope id).name spec.result ss) := by
  unfold callNested
  rw [outcome_bind, outcome_get]
  dsimp only
  rw [known]
  rfl

theorem outcome_callNested_first (inputs : List Wire) (t : Template)
    (ss : List Symbol) (unknown : c.nested.lookup spec.key = none) :
    outcome (callNested spec inputs (templateBody t) ss) c =
      let e := (c.fold ([Tag.scope] ++ Token.str spec.key)).nestedAdded c.current spec inputs t
      (.ok (.var (.result (e.names + 1))),
        e.called (e.scope c.scopes.size).name spec.result ss) := by
  unfold callNested
  rw [outcome_bind, outcome_get]
  dsimp only
  rw [unknown]
  dsimp only
  rw [outcome_bind, outcome_fold]
  dsimp only
  rw [outcome_bind, outcome_defineNested]
  rfl

theorem emitNested_ran {t : Template}
    (h : Ran (emitNested visit spec n.inputs (templateBody t)) c s c') :
    ∃ ss d callee e, Visits visit n.inputs c ss d ∧
      FunctionOf spec (n.inputs.filterMap id) t d callee e ∧
      s = .var (.result (e.names + 1)) ∧ c' = e.called (e.scope callee).name spec.result ss := by
  obtain ⟨ss, d, inputs, h₁⟩ := ran_bind.1 h
  have inputs := visitAll_ran (mapM_visitWire 0 n.inputs ▸ inputs)
  cases known : d.nested.lookup spec.key with
  | some id =>
    obtain ⟨rfl, rfl⟩ := (ran_iff (outcome_callNested_again _ _ ss known)).1 h₁
    exact ⟨ss, d, id, _, inputs, .again known, rfl, rfl⟩
  | none =>
    obtain ⟨rfl, rfl⟩ := (ran_iff (outcome_callNested_first _ _ ss known)).1 h₁
    exact ⟨ss, d, _, _, inputs, .first known, rfl, rfl⟩

theorem outcome_cacheDispatch_again {reader id : DispatchId}
    (reads : c.currentScope.dispatch = some reader) (known : c.caches.lookup n.id = some id) :
    outcome (cacheDispatch visit n value reduction) c = (.ok id, c.readAgain reader id) := by
  unfold cacheDispatch
  rw [outcome_bind, outcome_get]
  dsimp only
  rw [reads]
  dsimp only
  rw [known]
  rfl

theorem outcome_cacheDispatch_first {reader : DispatchId}
    (reads : c.currentScope.dispatch = some reader) (unknown : c.caches.lookup n.id = none) :
    outcome (cacheDispatch visit n value reduction) c =
      match outcome (visit value) (c.cacheOpened n reader reduction) with
      | (.ok s, d) => (.ok c.entries.size, d.cacheClosed c.entries.size c.cacheName n.shape s)
      | (.error (.refused e), d) => (.error (.refused e), { d with stack := d.stack.tail })
      | (.error (.fault f), d) => (.error (.fault f), d) := by
  -- everything before the body is a change of the context
  have start : outcome (cacheDispatch visit n value reduction) c =
      outcome (inScope c.scopes.size (do
              let s ← visit value
              line ⟨0, .store "out_value" (.sym s)⟩) >>= fun _ =>
            addOutput c.entries.size c.cacheName n.shape >>= fun _ => pure c.entries.size)
          { c with
            names := c.names + 1
            scopes := (c.scopes.push
              (placedScope c.cacheName [⟨"out_value", n.shape, true⟩])).modify
              c.scopes.size fun s => { s with dispatch := some c.entries.size }
            found := c.found ++ [c.scopes.size]
            entries := ((c.entries.push ⟨c.cacheName, (c.entry reader).depth + 1, .two, 0, [],
              c.scopes.size, []⟩).modify c.entries.size fun d => { d with reduction }).modify reader
                fun d => { d with reads := d.reads ++ [c.entries.size] }
            dispatches := c.dispatches ++ [c.entries.size]
            caches := (n.id, c.entries.size) :: c.caches
            stream := (c.stream.fold
              ([Tag.dispatch] ++ Token.str c.cacheName ++ [Dims.two.count])).fold
                (Token.u16 (UInt16.ofInt reduction)) } := by
    unfold cacheDispatch
    rw [outcome_bind, outcome_get]
    dsimp only
    rw [reads]
    dsimp only
    rw [unknown]
    rfl
  rw [start, modify_push_size, modify_push_size, outcome_bind, outcome_inScope, outcome_bind]
  unfold Context.cacheOpened
  dsimp only
  generalize outcome (visit value) _ = result
  cases result with
  | mk x d =>
    cases x with
    | ok s => rfl
    | error e => cases e <;> rfl

theorem cacheDispatch_ran {id : DispatchId}
    (h : Ran (cacheDispatch visit n value reduction) c id c') :
    CacheOf visit n value reduction c id c' := by
  cases reads : c.currentScope.dispatch with
  | none =>
    unfold cacheDispatch at h
    rw [ran_get_bind, reads] at h
    exact absurd h not_ran_refuse
  | some reader =>
    cases known : c.caches.lookup n.id with
    | some id' =>
      obtain ⟨rfl, rfl⟩ := (ran_iff (outcome_cacheDispatch_again reads known)).1 h
      exact .again reads known
    | none =>
      unfold Ran at h
      rw [outcome_cacheDispatch_first reads known] at h
      split at h
      case h_1 s d body =>
        obtain ⟨rfl, rfl⟩ : c.entries.size = id ∧
            d.cacheClosed c.entries.size c.cacheName n.shape s = c' := by simpa using h
        exact .first reads known body
      case h_2 => simp at h
      case h_3 => simp at h

theorem emitCache_ran (op : n.op = .cache reduction)
    (h : Ran (emitCache visit n reduction) c s c') : Rule visit n c s c' := by
  unfold emitCache at h
  dsimp only at h
  by_cases outside : reduction < 0 ∨ maxReduction < reduction
  · rw [if_pos outside] at h
    exact absurd h not_ran_refuse_bind
  rw [if_neg outside] at h
  split at h
  case h_1 => exact absurd h not_ran_refuse
  case h_3 => exact absurd h not_ran_throw
  case h_2 σ w typed inputs =>
    rw [ran_get_bind] at h
    split at h
    case isFalse => exact absurd h not_ran_refuse
    case isTrue placed =>
      obtain ⟨id, d, dispatch, h⟩ := ran_bind.1 h
      rw [ran_get_bind] at h
      split at h
      case h_1 => exact absurd h not_ran_throw
      case h_2 output more made =>
        obtain ⟨rfl, rfl⟩ := (ran_iff rfl).1 h
        exact .cache op (by omega) inputs (by rw [typed, Node.shape_eq typed]) placed
          (cacheDispatch_ran dispatch) made

theorem nextBound_requiredAll (c : Context) (rs : List Routine) :
    (c.requiredAll rs).nextBound = c.nextBound := by
  induction rs generalizing c with
  | nil => rfl
  | cons r rs ih => exact ih (c.required r)

theorem emitTemplate_ran {r : Routine} {t : Template} {d : Context}
    (parts : nestedParts n = some (r, spec, t))
    (octaves : ∀ kind k, n.op = .fractal kind k → 1 ≤ k ∧ k ≤ maxOctaves)
    (emitted : Ran (emitInputs visit n) c ss d)
    (h : Ran (do require r; emitNested visit spec n.inputs (templateBody t)) d s c') :
    Rule visit n c s c' := by
  obtain ⟨_, _, required, h₁⟩ := ran_bind.1 h
  obtain rfl := ran_modify.1 required
  obtain ⟨ss', d', callee, e, again, function, rfl, rfl⟩ := emitNested_ran h₁
  exact .nested parts octaves (emitInputs_ran emitted).1 (emitInputs_ran emitted).2 again function

section
variable (h : Ran (emitOp visit n) c s c')
include h

theorem emitCast_ran {target : Shape} (op : n.op = .cast target) : Rule visit n c s c' := by
  unfold emitOp at h
  rw [op] at h
  obtain ⟨ss, d, emitted, h₁⟩ := ran_bind.1 h
  obtain ⟨inputs, typed⟩ := emitInputs_ran emitted
  split at h₁
  case h_2 => exact absurd h₁ not_ran_throw
  case h_1 a =>
    split at h₁
    case isTrue fits =>
      obtain ⟨rfl, rfl⟩ := ran_pure.1 h₁
      exact .same op inputs typed fits
    case isFalse differs =>
      obtain ⟨rfl, rfl⟩ := (ran_iff (outcome_declare _ _ _)).1 h₁
      have plain : Node.isPlain n = true := by simp [Node.isPlain, op, differs]
      have none : termRoutines n = [] := by simp [termRoutines, op]
      have rule := Rule.term plain inputs typed
      rwa [none] at rule

theorem emitDistance_ran {metric : Metric} (op : n.op = .distance metric) :
    Rule visit n c s c' := by
  unfold emitOp at h
  rw [op] at h
  obtain ⟨ss, d, emitted, h₁⟩ := ran_bind.1 h
  obtain ⟨inputs, typed⟩ := emitInputs_ran emitted
  split at h₁
  case h_2 => exact absurd h₁ not_ran_throw
  case h_1 a b =>
    obtain ⟨rfl, rfl⟩ := (ran_iff rfl).1 h₁
    exact .distance op inputs typed

theorem emitFractal_ran {kind : NoiseKind} {octaves : Int} (op : n.op = .fractal kind octaves) :
    Rule visit n c s c' := by
  unfold emitOp at h
  rw [op] at h
  obtain ⟨ss, d, emitted, h₁⟩ := ran_bind.1 h
  dsimp only at h₁
  by_cases outside : octaves < 1 ∨ maxOctaves < octaves
  · rw [if_pos outside] at h₁
    exact absurd h₁ not_ran_refuse_bind
  rw [if_neg outside] at h₁
  refine emitTemplate_ran (by simp only [nestedParts, op]) ?_ emitted h₁
  intro kind' k op'
  obtain ⟨-, rfl⟩ : kind = kind' ∧ octaves = k := by simpa [op] using op'
  omega

theorem emitCellular_ran {metric : Metric} {feature : CellFeature}
    (op : n.op = .cellular metric feature) : Rule visit n c s c' := by
  unfold emitOp at h
  rw [op] at h
  obtain ⟨ss, d, emitted, h₁⟩ := ran_bind.1 h
  refine emitTemplate_ran (by simp only [nestedParts, op]) ?_ emitted h₁
  intro kind k op'
  rw [op] at op'
  cases op'

theorem emitOp_ran : Rule visit n c s c' := by
  have ran := h
  unfold emitOp at h
  split at h
  case h_1 => exact absurd h not_ran_refuse
  case h_2 op =>
    rw [ran_get_bind] at h
    dsimp only at h
    split at h
    case isTrue placed =>
      obtain ⟨rfl, rfl⟩ := ran_pure.1 h
      exact .position op placed
    case isFalse => exact absurd h not_ran_refuse
  case h_3 v op => exact emitConstant_ran op h
  case h_4 name shape fallback op => exact emitInject_ran op h
  case h_5 name shape op =>
    split at h
    case h_2 => exact absurd h not_ran_refuse
    case h_1 w rest inputs =>
      obtain ⟨s', d, target, h₁⟩ := ran_bind.1 h
      split at h₁
      case isFalse => exact absurd h₁ not_ran_refuse
      case isTrue fits =>
        obtain ⟨rfl, rfl⟩ := ran_pure.1 h₁
        exact .ref op inputs target fits
  case h_6 target op => exact emitCast_ran ran op
  case h_7 metric op => exact emitDistance_ran ran op
  case h_8 kind octaves op => exact emitFractal_ran ran op
  case h_9 metric feature op => exact emitCellular_ran ran op
  case h_10 reduction op => exact emitCache_ran op h
  case h_11 =>
    obtain ⟨ss, d, inputs, h₁⟩ := ran_bind.1 h
    obtain ⟨_, _, required, h₂⟩ := ran_bind.1 h₁
    obtain ⟨-, rfl⟩ := (ran_iff (outcome_forM_require _ _)).1 required
    obtain ⟨rfl, rfl⟩ := (ran_iff (outcome_declare _ _ _)).1 h₂
    rw [nextBound_requiredAll]
    refine .term ?_ (emitInputs_ran inputs).1 (emitInputs_ran inputs).2
    unfold Node.isPlain
    split <;> simp_all

end

theorem emitNode_ran (h : Ran (emitNode visit n) c s c') : Generates visit n c s c' := by
  unfold emitNode at h
  rw [ran_get_bind] at h
  dsimp only at h
  split at h
  case h_1 s' known =>
    obtain ⟨rfl, rfl⟩ := (ran_iff rfl).1 h
    exact .again known
  case h_2 unknown =>
    obtain ⟨_, _, folded, h₁⟩ := ran_bind.1 h
    obtain rfl := ran_modify.1 folded
    split at h₁
    case isFalse => exact absurd h₁ not_ran_throw
    case isTrue complete =>
      obtain ⟨s', d, rule, h₂⟩ := ran_bind.1 h₁
      obtain ⟨rfl, rfl⟩ := (ran_iff rfl).1 h₂
      exact .first unknown complete (emitOp_ran rule)

theorem emitWithin_ran {g : Graph} {fuel : Nat} {id : NodeId}
    (h : Ran (emitWithin g (fuel + 1) id) c s c') :
    ∃ n, g.get? id = some n ∧ Generates (emitWithin g fuel) n c s c' := by
  unfold emitWithin at h
  split at h
  case h_1 => exact absurd h not_ran_refuse
  case h_2 n found => exact ⟨n, found, emitNode_ran h⟩

end

end Terrain.Compile
