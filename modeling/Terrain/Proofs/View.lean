import Terrain.Proofs.Growth
import Terrain.Proofs.Subst

/-!
# Contexts seen without numbers and values

Two compilations are compared by what is left of their contexts when nodes are renumbered, slots
are renumbered, and the values of parameters are forgotten.  Every change of a context goes along
with this view of it.

* `Context.view f r`   nodes renumbered by `f`, slots by `r`, the tables of parameters left out;
* `view_declared` …    the view of each change is the change of the view;
* `Mirrored`           contexts of one view, which changes made to both leave so.
-/

namespace Terrain.Kernel

/-- a renumbering of slots, which may look at the shape a slot is read in -/
abbrev SlotMap := Nat × Shape → Nat × Shape

def Symbol.relabel (r : SlotMap) : Symbol → Symbol
  | .var v => .var v
  | .param slot shape => .param (r (slot, shape)).1 (r (slot, shape)).2

def Expr.relabel (r : SlotMap) (e : Expr) : Expr := e.subst fun s => .sym (s.relabel r)

def Line.relabel (r : SlotMap) : Line → Line
  | .bind v s e => .bind v s (e.relabel r)
  | .letVar v e => .letVar v (e.relabel r)
  | .declare v s => .declare v s
  | .start v e => .start v (e.relabel r)
  | .assign v e => .assign v (e.relabel r)
  | .store output e => .store output (e.relabel r)
  | .call function args result => .call function (args.map (Symbol.relabel r)) result
  | .loop v first relation last => .loop v first relation last
  | .test e => .test (e.relabel r)
  | .otherwise e => .otherwise (e.relabel r)
  | .close => .close
  | .verbatim t => .verbatim t

def Indented.relabel (r : SlotMap) (l : Indented) : Indented := ⟨l.depth, l.line.relabel r⟩

def Template.relabel (r : SlotMap) (t : Template) : Template :=
  ⟨t.lines.map (Indented.relabel r), t.result.relabel r⟩

theorem Symbol.relabel_id (s : Symbol) : s.relabel id = s := by
  cases s <;> rfl

theorem Expr.relabel_id (e : Expr) : e.relabel id = e := by
  unfold Expr.relabel
  induction e with
  | sym s => exact congrArg Expr.sym (Symbol.relabel_id s)
  | literal t => rfl
  | call0 f => rfl
  | neg e ih => exact congrArg Expr.neg ih
  | not e ih => exact congrArg Expr.not ih
  | group e ih => exact congrArg Expr.group ih
  | op o a b iha ihb => exact congrArg₂ (Expr.op o) iha ihb
  | call1 f a ih => exact congrArg (Expr.call1 f) ih
  | call2 f a b iha ihb => exact congrArg₂ (Expr.call2 f) iha ihb
  | call3 f a b c iha ihb ihc =>
    show Expr.call3 f (a.subst _) (b.subst _) (c.subst _) = _
    rw [iha, ihb, ihc]
  | lanes e mask ih => exact congrArg (Expr.lanes · mask) ih
  | sample buffer index ih => exact congrArg (Expr.sample buffer) ih

theorem Line.relabel_id (l : Line) : l.relabel id = l := by
  cases l with
  | call function args result =>
    show Line.call function (args.map (Symbol.relabel id)) result = _
    rw [List.map_congr_left fun s _ => Symbol.relabel_id s, List.map_id']
  | bind v s e => exact congrArg (Line.bind v s) e.relabel_id
  | letVar v e => exact congrArg (Line.letVar v) e.relabel_id
  | start v e => exact congrArg (Line.start v) e.relabel_id
  | assign v e => exact congrArg (Line.assign v) e.relabel_id
  | store output e => exact congrArg (Line.store output) e.relabel_id
  | test e => exact congrArg Line.test e.relabel_id
  | otherwise e => exact congrArg Line.otherwise e.relabel_id
  | _ => rfl

theorem Indented.relabel_id (l : Indented) : l.relabel id = l :=
  congrArg (Indented.mk l.depth) l.line.relabel_id

end Terrain.Kernel

namespace Terrain.Compile

open Kernel Hash List

def Scope.view (f : NodeId → NodeId) (r : SlotMap) (s : Scope) : Scope :=
  { s with
    lines := s.lines.map (Indented.relabel r)
    symbols := s.symbols.map fun p => (f p.1, p.2.relabel r) }

theorem Scope.lines_view_id (f : NodeId → NodeId) (s : Scope) : (s.view f id).lines = s.lines := by
  show s.lines.map (Indented.relabel id) = s.lines
  rw [Array.map_congr_left fun l _ => Indented.relabel_id l, Array.map_id']

theorem Scope.view_id (s : Scope) : s.view id id = s := by
  have symbols : s.symbols.map (fun p => (p.1, p.2.relabel id)) = s.symbols := by
    rw [map_congr_left fun p _ => by rw [Symbol.relabel_id], map_id']
  have lines := s.lines_view_id id
  cases s
  simp only [Scope.view] at lines symbols ⊢
  rw [lines]
  simp only [id, symbols]

namespace Context

/-- a context with nodes and slots renumbered, without the tables of parameters, and of its options
only the workgroup size -/
def view (f : NodeId → NodeId) (r : SlotMap) (c : Context) : Context :=
  { c with
    options := ⟨[], none, c.options.workgroupSize⟩
    scopes := c.scopes.map (Scope.view f r)
    caches := c.caches.map fun p => (f p.1, p.2)
    parameters := []
    constantSlots := []
    injectedSlots := [] }

end Context

section
variable (f : NodeId → NodeId) (r : SlotMap) (c : Context)

theorem map_modify {α β : Type} (xs : Array α) (i : Nat) (v : α → β) (g : α → α) (g' : β → β)
    (h : ∀ x, v (g x) = g' (v x)) : (xs.modify i g).map v = (xs.map v).modify i g' := by
  apply Array.ext
  · simp
  · intro j _ _
    simp only [Array.getElem_map, Array.getElem_modify]
    split
    · exact h _
    · rfl

/-! ## parts of a view -/

theorem view_scope (i : ScopeId) : (c.view f r).scope i = (c.scope i).view f r := by
  simp only [Context.scope, Context.view, Array.getD_eq_getD_getElem?, Array.getElem?_map]
  cases c.scopes[i]? with
  | none => simp [Scope.view, default]
  | some s => rfl

theorem view_modifyScope (i : ScopeId) (g g' : Scope → Scope)
    (h : ∀ s, (g s).view f r = g' (s.view f r)) :
    (c.modifyScope i g).view f r = (c.view f r).modifyScope i g' := by
  unfold Context.modifyScope Context.view
  rw [map_modify _ _ _ _ g' h]

theorem view_modifyEntry (i : DispatchId) (g : Entry → Entry) :
    (c.modifyEntry i g).view f r = (c.view f r).modifyEntry i g := rfl

theorem view_push (s : Scope) (l : Indented) :
    (s.push l).view f r = (s.view f r).push (l.relabel r) := by
  simp [Scope.push, Scope.view]

/-! ## views of changes -/

theorem view_fold (token : List UInt8) : (c.fold token).view f r = (c.view f r).fold token := rfl

theorem view_required (x : Routine) : (c.required x).view f r = (c.view f r).required x := rfl

theorem view_requiredAll (xs : List Routine) :
    (c.requiredAll xs).view f r = (c.view f r).requiredAll xs := by
  induction xs generalizing c with
  | nil => rfl
  | cons x xs ih => exact ih _

theorem view_declared (shape : Shape) (e : Expr) :
    (c.declared shape e).view f r = (c.view f r).declared shape (e.relabel r) := by
  refine view_modifyScope f r { c with names := c.names + 1 } c.current _ _ ?_
  intro s
  simp only [Scope.push, Scope.view, Array.map_push]
  rfl

theorem view_remembered (id : ScopeId) (node : NodeId) (s : Symbol) :
    (c.remembered id node s).view f r = (c.view f r).remembered id (f node) (s.relabel r) :=
  view_modifyScope f r c id _ _ fun _ => rfl

theorem view_lined (ls : List Indented) :
    (c.lined ls).view f r = (c.view f r).lined (ls.map (Indented.relabel r)) := by
  induction ls generalizing c with
  | nil => rfl
  | cons l ls ih =>
    refine (ih _).trans ?_
    rw [view_modifyScope f r c c.current _ (·.push (l.relabel r)) fun s => view_push f r s l]
    rfl

theorem view_deepened (id : ScopeId) (depth : Int) :
    (c.deepened id depth).view f r = (c.view f r).deepened id depth := by
  refine view_modifyScope f r c id _ _ ?_
  intro s
  show Scope.view f r _ = if s.depth < depth then _ else _
  split <;> rfl

theorem view_called (function : String) (shape : Shape) (args : List Symbol) :
    (c.called function shape args).view f r =
      (c.view f r).called function shape (args.map (Symbol.relabel r)) := by
  refine view_modifyScope f r { c with names := c.names + 1 } c.current _ _ ?_
  intro s
  simp only [Scope.push, Scope.view, Array.map_push]
  rfl

theorem nestedSymbols_map (i : Nat) (ws : List Wire) (found : List (NodeId × Symbol)) :
    (nestedSymbols i ws found).map (fun p => (f p.1, p.2.relabel r)) =
      nestedSymbols i (ws.map fun w => ⟨f w.source, w.shape⟩)
        (found.map fun p => (f p.1, p.2.relabel r)) := by
  induction ws generalizing i found with
  | nil => rfl
  | cons w ws ih => exact ih _ _

theorem nestedArguments_map (i : Nat) (ws : List Wire) :
    nestedArguments i (ws.map fun w => ⟨f w.source, w.shape⟩) = nestedArguments i ws := by
  induction ws generalizing i with
  | nil => rfl
  | cons w ws ih => exact congrArg (List.cons _) (ih _)

theorem nestedLines_relabel (arity : Nat) (t : Template) :
    (Context.nestedLines arity t).map (Indented.relabel r) =
      Context.nestedLines arity (t.relabel r) := by
  simp [Context.nestedLines, Template.relabel, Indented.relabel, Line.relabel, Expr.relabel,
    Expr.subst, Expr.var, Symbol.relabel]

theorem view_nestedScope (caller : ScopeId) (spec : Nested) (inputs : List Wire) (t : Template) :
    (c.nestedScope caller spec inputs t).view f r =
      (c.view f r).nestedScope caller spec (inputs.map fun w => ⟨f w.source, w.shape⟩)
        (t.relabel r) := by
  unfold Context.nestedScope
  simp only [Scope.view, view_scope, nestedArguments_map, length_map, ← nestedLines_relabel,
    nestedSymbols_map, map_nil, map_toArray]
  rfl

theorem view_nestedAdded (caller : ScopeId) (spec : Nested) (inputs : List Wire) (t : Template) :
    (c.nestedAdded caller spec inputs t).view f r =
      (c.view f r).nestedAdded caller spec (inputs.map fun w => ⟨f w.source, w.shape⟩)
        (t.relabel r) := by
  unfold Context.nestedAdded
  rw [← view_nestedScope]
  simp [Context.view]

theorem view_raiseDepth (fuel : Nat) (id : DispatchId) (depth : Int) :
    (raiseDepth fuel id depth c).view f r = raiseDepth fuel id depth (c.view f r) := by
  induction fuel generalizing c id depth with
  | zero => rfl
  | succ fuel ih =>
    rw [raiseDepth_succ, raiseDepth_succ]
    have fold (reads : List DispatchId) (d : Context) :
        (reads.foldl (fun c child => raiseDepth fuel child (depth + 1) c) d).view f r =
          reads.foldl (fun c child => raiseDepth fuel child (depth + 1) c) (d.view f r) := by
      induction reads generalizing d with
      | nil => rfl
      | cons child reads ih' =>
        simp only [foldl_cons]
        rw [ih', ih]
    show Context.view f r _ = if depth ≤ (c.entry id).depth then _ else _
    split
    · rfl
    · exact fold _ _

theorem view_readAgain (reader id : DispatchId) :
    (c.readAgain reader id).view f r = (c.view f r).readAgain reader id := by
  unfold Context.readAgain
  rw [view_fold, view_modifyEntry, view_raiseDepth]
  rfl

theorem view_cacheOpened (hf : f Graph.positionId = Graph.positionId) (n : Node)
    (reader : DispatchId) (reduction : Int) :
    (c.cacheOpened n reader reduction).view f r =
      (c.view f r).cacheOpened ⟨f n.id, n.op, n.inputs⟩ reader reduction := by
  have placed (name : String) (outputs : List Argument) (d : Option DispatchId) :
      Scope.view f r { placedScope name outputs with dispatch := d } =
        { placedScope name outputs with dispatch := d } := by
    simp [Scope.view, placedScope, hf, Symbol.relabel]
  unfold Context.cacheOpened Context.view
  simp only [Array.map_push, Array.size_map, placed, map_cons]
  rfl

theorem view_outputAdded (id : DispatchId) (target : String) (shape : Shape) :
    (c.outputAdded id target shape).view f r = (c.view f r).outputAdded id target shape := rfl

theorem view_cacheClosed (id : DispatchId) (name : String) (shape : Shape) (s : Symbol) :
    (c.cacheClosed id name shape s).view f r =
      (c.view f r).cacheClosed id name shape (s.relabel r) := by
  unfold Context.cacheClosed
  rw [view_outputAdded]
  show Context.outputAdded { Context.view f r (c.lined _) with stack := _ } id name shape = _
  rw [view_lined]
  rfl

theorem view_rooted (x : Root) (shape : Shape) (s : Symbol) :
    (c.rooted x shape s).view f r = (c.view f r).rooted x shape (s.relabel r) := by
  unfold Context.rooted
  rw [view_outputAdded]
  unfold Context.stored
  rw [view_modifyScope f r c rootId _ _ ?_]
  intro s
  simp only [Scope.push, Scope.view, Array.map_push]
  rfl

theorem view_arrange : (arrange c).view f r = arrange (c.view f r) := by
  have depths (a b : ScopeId) :
      decide (((c.view f r).scope b).depth ≤ ((c.view f r).scope a).depth) =
        decide ((c.scope b).depth ≤ (c.scope a).depth) := by
    rw [view_scope, view_scope]
    rfl
  have order := congrArg (fun le => (c.view f r).found.mergeSort le) (funext₂ depths)
  exact congrArg (fun written => { (arrange c).view f r with arranged := some written }) order.symm

end

/-! ## contexts of one view -/

/-- tables of parameters stay related while they are left alone -/
class Framed (T : Context → Context → Prop) : Prop where
  frame : ∀ {c d c' d'}, T c d → SameTables c c' → SameTables d d' → T c' d'

/-- contexts that are the same once nodes are seen through `f` and `f'` and slots through `ρ`, and
whose tables of parameters are related by `T` -/
structure Mirrored (f f' : NodeId → NodeId) (ρ : SlotMap) (T : Context → Context → Prop)
    (c d : Context) : Prop where
  view : c.view f ρ = d.view f' ρ
  tables : T c d

theorem view_opened {f f' : NodeId → NodeId} (r : SlotMap)
    (position : f Graph.positionId = Graph.positionId)
    (position' : f' Graph.positionId = Graph.positionId) {o o' : Options}
    (size : o.workgroupSize = o'.workgroupSize) :
    (Context.opened o).view f r = (Context.opened o').view f' r := by
  simp only [Context.view, Context.opened, Context.new, placedScope, Scope.view, size,
    map_toArray, map_cons, map_nil, position, position']

section
variable {f f' : NodeId → NodeId} {ρ : SlotMap} {T : Context → Context → Prop} {c d c' d' : Context}
  (a : Mirrored f f' ρ T c d)
include a

theorem Mirrored.scope (i : ScopeId) : (c.scope i).view f ρ = (d.scope i).view f' ρ := by
  have same := congrArg (fun c : Context => c.scope i) a.view
  simpa only [view_scope] using same

theorem Mirrored.stack : c.stack = d.stack := by
  have same := congrArg Context.stack a.view
  exact same

theorem Mirrored.current : c.current = d.current := by
  have same := congrArg Context.current a.view
  exact same

theorem Mirrored.entries : c.entries = d.entries := by
  have same := congrArg Context.entries a.view
  exact same

theorem Mirrored.entry (i : DispatchId) : c.entry i = d.entry i := by
  unfold Context.entry
  rw [a.entries]

theorem Mirrored.scopes : c.scopes.size = d.scopes.size := by
  have same := congrArg (fun c : Context => c.scopes.size) a.view
  simpa [Context.view] using same

theorem Mirrored.names : c.names = d.names := by
  have same := congrArg Context.names a.view
  exact same

theorem Mirrored.nested : c.nested = d.nested := by
  have same := congrArg Context.nested a.view
  exact same

theorem Mirrored.stream : c.stream = d.stream := by
  have same := congrArg Context.stream a.view
  exact same

theorem Mirrored.scopeName (i : ScopeId) : (c.scope i).name = (d.scope i).name := by
  have same := congrArg Scope.name (a.scope i)
  exact same

theorem Mirrored.currentScope : c.currentScope.view f ρ = d.currentScope.view f' ρ := by
  unfold Context.currentScope
  rw [← a.current]
  exact a.scope c.current

theorem Mirrored.dispatch : c.currentScope.dispatch = d.currentScope.dispatch := by
  have same := congrArg Scope.dispatch a.currentScope
  exact same

theorem Mirrored.depth : c.currentScope.depth = d.currentScope.depth := by
  have same := congrArg Scope.depth a.currentScope
  exact same

theorem Mirrored.hasPosition : c.currentScope.hasPosition = d.currentScope.hasPosition := by
  have same := congrArg Scope.hasPosition a.currentScope
  exact same

theorem Mirrored.cacheName : c.cacheName = d.cacheName := by
  unfold Context.cacheName
  rw [a.names]

theorem Mirrored.nextBound : c.nextBound = d.nextBound := by
  unfold Context.nextBound
  rw [a.names]

variable [Framed T]

theorem Mirrored.change (view : c'.view f ρ = d'.view f' ρ) (left : SameTables c c')
    (right : SameTables d d') : Mirrored f f' ρ T c' d' :=
  ⟨view, Framed.frame a.tables left right⟩

theorem Mirrored.fold (token : List UInt8) : Mirrored f f' ρ T (c.fold token) (d.fold token) :=
  a.change (by rw [view_fold, view_fold, a.view]) ⟨rfl, rfl, rfl, rfl⟩ ⟨rfl, rfl, rfl, rfl⟩

theorem Mirrored.declared (shape : Shape) {e e' : Expr} (same : e.relabel ρ = e'.relabel ρ) :
    Mirrored f f' ρ T (c.declared shape e) (d.declared shape e') :=
  a.change (by rw [view_declared, view_declared, a.view, same]) ⟨rfl, rfl, rfl, rfl⟩
    ⟨rfl, rfl, rfl, rfl⟩

theorem Mirrored.required (r : Routine) : Mirrored f f' ρ T (c.required r) (d.required r) :=
  a.change (by rw [view_required, view_required, a.view]) ⟨rfl, rfl, rfl, rfl⟩ ⟨rfl, rfl, rfl, rfl⟩

theorem Mirrored.requiredAll (rs : List Routine) :
    Mirrored f f' ρ T (c.requiredAll rs) (d.requiredAll rs) := by
  induction rs generalizing c d with
  | nil => exact a
  | cons r rs ih => exact ih (a.required r)

theorem Mirrored.remembered (i : ScopeId) {x y : NodeId} (node : f x = f' y) {s s' : Symbol}
    (same : s.relabel ρ = s'.relabel ρ) :
    Mirrored f f' ρ T (c.remembered i x s) (d.remembered i y s') :=
  a.change (by rw [view_remembered, view_remembered, a.view, same, node]) ⟨rfl, rfl, rfl, rfl⟩
    ⟨rfl, rfl, rfl, rfl⟩

theorem Mirrored.deepened (i : ScopeId) (depth : Int) :
    Mirrored f f' ρ T (c.deepened i depth) (d.deepened i depth) :=
  a.change (by rw [view_deepened, view_deepened, a.view]) ⟨rfl, rfl, rfl, rfl⟩ ⟨rfl, rfl, rfl, rfl⟩

theorem Mirrored.called (function : String) (shape : Shape) {ss ss' : List Symbol}
    (same : ss.map (Symbol.relabel ρ) = ss'.map (Symbol.relabel ρ)) :
    Mirrored f f' ρ T (c.called function shape ss) (d.called function shape ss') :=
  a.change (by rw [view_called, view_called, a.view, same]) ⟨rfl, rfl, rfl, rfl⟩
    ⟨rfl, rfl, rfl, rfl⟩

theorem Mirrored.nestedAdded (caller : ScopeId) (spec : Nested) {ws vs : List Wire} (x : Template)
    (same : ws.map (fun w => (⟨f w.source, w.shape⟩ : Wire)) = vs.map fun w =>
      ⟨f' w.source, w.shape⟩) :
    Mirrored f f' ρ T (c.nestedAdded caller spec ws x) (d.nestedAdded caller spec vs x) :=
  a.change (by rw [view_nestedAdded, view_nestedAdded, a.view, same]) ⟨rfl, rfl, rfl, rfl⟩
    ⟨rfl, rfl, rfl, rfl⟩

theorem Mirrored.readAgain (reader i : DispatchId) :
    Mirrored f f' ρ T (c.readAgain reader i) (d.readAgain reader i) :=
  a.change (by rw [view_readAgain, view_readAgain, a.view]) (sameTables_readAgain c _ _)
    (sameTables_readAgain d _ _)

theorem Mirrored.cacheOpened (position : f Graph.positionId = Graph.positionId)
    (position' : f' Graph.positionId = Graph.positionId) {n m : Node} (node : f n.id = f' m.id)
    (shape : n.shape = m.shape) (reader : DispatchId) (reduction : Int) :
    Mirrored f f' ρ T (c.cacheOpened n reader reduction) (d.cacheOpened m reader reduction) := by
  refine a.change ?_ ⟨rfl, rfl, rfl, rfl⟩ ⟨rfl, rfl, rfl, rfl⟩
  rw [view_cacheOpened _ _ _ position, view_cacheOpened _ _ _ position', a.view]
  have shape : Node.shape ⟨f n.id, n.op, n.inputs⟩ = Node.shape ⟨f' m.id, m.op, m.inputs⟩ := shape
  unfold Context.cacheOpened
  rw [shape, node]

theorem Mirrored.cacheClosed (i : DispatchId) (name : String) (shape : Shape) {s s' : Symbol}
    (same : s.relabel ρ = s'.relabel ρ) :
    Mirrored f f' ρ T (c.cacheClosed i name shape s) (d.cacheClosed i name shape s') :=
  a.change (by rw [view_cacheClosed, view_cacheClosed, a.view, same]) ⟨rfl, rfl, rfl, rfl⟩
    ⟨rfl, rfl, rfl, rfl⟩

theorem Mirrored.rooted {r r' : Root} (target : r.target = r'.target) (shape : Shape)
    {s s' : Symbol} (same : s.relabel ρ = s'.relabel ρ) :
    Mirrored f f' ρ T (c.rooted r shape s) (d.rooted r' shape s') := by
  have named : d.rooted r' shape s' = d.rooted r shape s' := by
    unfold Context.rooted
    rw [target]
  rw [named]
  exact a.change (by rw [view_rooted, view_rooted, a.view, same]) ⟨rfl, rfl, rfl, rfl⟩
    ⟨rfl, rfl, rfl, rfl⟩

theorem Mirrored.popped :
    Mirrored f f' ρ T { c with stack := c.stack.tail } { d with stack := d.stack.tail } :=
  a.change (congrArg (fun c : Context => { c with stack := c.stack.tail }) a.view)
    ⟨rfl, rfl, rfl, rfl⟩ ⟨rfl, rfl, rfl, rfl⟩

theorem Mirrored.withPhase (phase : Phase) : Mirrored f f' ρ T { c with phase } { d with phase } :=
  a.change (congrArg (fun c : Context => { c with phase }) a.view) ⟨rfl, rfl, rfl, rfl⟩
    ⟨rfl, rfl, rfl, rfl⟩

theorem Mirrored.arrange : Mirrored f f' ρ T (arrange c) (arrange d) :=
  a.change (by rw [view_arrange, view_arrange, a.view]) ⟨rfl, rfl, rfl, rfl⟩ ⟨rfl, rfl, rfl, rfl⟩

theorem Mirrored.finished : Mirrored f f' ρ T c.finished d.finished :=
  a.popped.arrange.withPhase .sorted

end

end Terrain.Compile
