import Mathlib.Order.Interval.Finset.Nat
import Mathlib.Logic.Equiv.Basic
import Terrain.Proofs.Agree
import Terrain.Proofs.Built
import Terrain.Proofs.Form
import Terrain.Proofs.Layout
import Terrain.Proofs.Lookups

/-!
# Renumbered graphs and twin contexts

Two graphs may be the same up to a renumbering of their nodes, the values of constants and the
fallbacks of parameters (`Graph.Renamed`).  Two contexts may be the same up to the renumbering and
the values of their parameters (`Twins`).  A change that is made to both twins, each in terms of
its own graph, leaves twins.
-/

namespace Terrain

open Compile

def Wire.renamed (φ : NodeId → NodeId) (w : Wire) : Wire := ⟨φ w.source, w.shape⟩

def Root.renamed (φ : NodeId → NodeId) (r : Root) : Root := ⟨r.target, r.node.map φ⟩

/-- nodes that differ in their number, and in values and fallbacks of one shape -/
structure Node.Renamed (φ : NodeId → NodeId) (o o' : Options) (n m : Node) : Prop where
  id : m.id = φ n.id
  op : m.op.strip = n.op.strip
  inputs : m.inputs = n.inputs.map (·.map (Wire.renamed φ))
  /-- a parameter gets a value of the same shape, bound or by its fallback, or none in both -/
  bound : ∀ {name s a b}, n.op = .inject name s a → m.op = .inject name s b →
    ((o.bindings.lookup name).or a).map Value.shape =
      ((o'.bindings.lookup name).or b).map Value.shape

/-- graphs that are the same up to a renumbering that keeps the world position -/
structure Graph.Renamed (φ : Equiv.Perm NodeId) (o o' : Options) (g h : Graph) : Prop where
  position : φ Graph.positionId = Graph.positionId
  nodes : ∀ id, Option.Rel (Node.Renamed φ o o') (g.get? id) (h.get? (φ id))

section
variable {φ : Equiv.Perm NodeId} {o o' : Options} {g h : Graph} {n m : Node}

section
variable (r : Node.Renamed φ o o' n m)
include r

theorem Node.Renamed.bare : m.bare = n.bare := by
  have inputs : m.inputs.map (·.map fun w : Wire => (⟨0, w.shape⟩ : Wire)) =
      n.inputs.map (·.map fun w => ⟨0, w.shape⟩) := by
    rw [r.inputs, List.map_map]
    apply List.map_congr_left
    intro x _
    cases x <;> rfl
  unfold Node.bare
  rw [r.op, inputs]

theorem Node.Renamed.kind : m.kind = n.kind := by
  rw [← kind_bare m, r.bare, kind_bare]

theorem Node.Renamed.atNode {V : Prop} {fault fault' : StructureFault}
    (same : V → (CompileError.atNode m fault).unnumbered =
      (CompileError.atNode m fault').unnumbered) :
    Failure.Alike V (.refused (.atNode n fault)) (.refused (.atNode m fault')) := by
  refine ⟨⟨rfl, nofun⟩, fun h => ?_⟩
  have number : (CompileError.atNode n fault).unnumbered =
      (CompileError.atNode m fault).unnumbered := by
    unfold CompileError.atNode
    rw [r.kind]
    cases fault <;> rfl
  exact congrArg Failure.refused (number.trans (same h))

theorem Node.Renamed.shapeAt {V : Prop} {fault fault' : ShapeFault} (same : V → fault = fault') :
    Failure.Alike V (.refused (.shapeAt n fault)) (.refused (.shapeAt m fault')) := by
  refine ⟨⟨rfl, nofun⟩, fun h => ?_⟩
  rw [same h]
  show Failure.refused (.shape 0 n.kind fault') = .refused (.shape 0 m.kind fault')
  rw [r.kind]

theorem Node.Renamed.typing : m.typing = n.typing := by
  rw [← typing_bare m, r.bare, typing_bare]

theorem Node.Renamed.shape : m.shape = n.shape := by
  rw [← shape_bare m, r.bare, shape_bare]

theorem Node.Renamed.inputShape (i : Nat) : m.inputShape i = n.inputShape i := by
  rw [← inputShape_bare m, r.bare, inputShape_bare]

theorem Node.Renamed.termRoutines : termRoutines m = termRoutines n := by
  rw [← termRoutines_bare m, r.bare, termRoutines_bare]

theorem Node.Renamed.term (es : List Kernel.Expr) : term m es = term n es := by
  rw [← term_bare m, r.bare, term_bare]

end

theorem Graph.Renamed.size (r : Graph.Renamed φ o o' g h) : g.size = h.size := by
  have mem (g : Graph) (id : NodeId) : id ∈ Finset.Icc 1 g.size ↔ (g.get? id).isSome := by
    rw [Finset.mem_Icc, Graph.isSome_get?]
    exact Iff.rfl
  have image : (Finset.Icc 1 g.size).map φ.toEmbedding = Finset.Icc 1 h.size := by
    ext id
    rw [Finset.mem_map_equiv, mem, mem]
    have related := r.nodes (φ.symm id)
    rw [Equiv.apply_symm_apply] at related
    generalize g.get? (φ.symm id) = x at related
    generalize h.get? id = y at related
    cases related <;> simp
  have := congrArg Finset.card image
  simpa using this

end

namespace Compile

open Kernel Hash

/-- tables of parameters of one layout; `V` says that values are the same too -/
structure TwinTables (V : Prop) (φ : NodeId → NodeId) (o o' : Options) (c d : Context) : Prop where
  left : c.options = o
  right : d.options = o'
  layout : c.parameters.map Parameter.layout = d.parameters.map Parameter.layout
  constants : c.constantSlots.map (fun p => (φ p.1, p.2)) = d.constantSlots
  injected : c.injectedSlots = d.injectedSlots
  values : V → c.parameters = d.parameters

/-- what two compilations have in common at every moment -/
abbrev Twins (V : Prop) (φ : NodeId → NodeId) (o o' : Options) : Context → Context → Prop :=
  Mirrored φ id id (TwinTables V φ o o')

section
variable {V : Prop} {φ : Equiv.Perm NodeId} {o o' : Options} {c d : Context}

instance : Framed (TwinTables V φ o o') where
  frame t left right :=
    { left := left.options.trans t.left
      right := right.options.trans t.right
      layout := by rw [left.parameters, right.parameters, t.layout]
      constants := by rw [left.constantSlots, right.constantSlots, t.constants]
      injected := by rw [left.injectedSlots, right.injectedSlots, t.injected]
      values := fun v => by rw [left.parameters, right.parameters, t.values v] }

theorem TwinTables.length (t : TwinTables V φ o o' c d) :
    c.parameters.length = d.parameters.length := by
  simpa using congrArg List.length t.layout

theorem lookup_map_key {β : Type} (l : List (NodeId × β)) (x : NodeId) :
    (l.map fun p => (φ p.1, p.2)).lookup (φ x) = l.lookup x := by
  rw [lookup_map_rows (fun _ _ same => φ.injective same) fun b => b, Option.map_id']

/-! ## what twins share -/

section
variable (t : Twins V φ o o' c d)
include t

theorem Twins.layout :
    c.parameters.map Parameter.layout = d.parameters.map Parameter.layout := t.tables.layout

theorem Twins.lookup_cache (x : NodeId) : d.caches.lookup (φ x) = c.caches.lookup x := by
  have same : c.caches.map (fun p => (φ p.1, p.2)) = d.caches.map (fun p => (id p.1, p.2)) :=
    congrArg Context.caches t.view
  rw [← lookup_map_key (φ := φ) c.caches x, same]
  simp

theorem Twins.lookup_symbol (x : NodeId) :
    d.currentScope.symbols.lookup (φ x) = c.currentScope.symbols.lookup x := by
  have same := congrArg Scope.symbols t.currentScope
  rw [Scope.view_id] at same
  rw [← same, ← lookup_map_key (φ := φ) c.currentScope.symbols x]
  simp only [Scope.view, Symbol.relabel_id]

theorem Twins.lookup_constant (x : NodeId) :
    d.constantSlots.lookup (φ x) = c.constantSlots.lookup x := by
  rw [← t.tables.constants, lookup_map_key]

/-! ## changes of twins -/

theorem Twins.constantAdded (x : NodeId) {v v' : Value}
    (shape : v'.shape = v.shape) (same : V → v' = v) :
    Twins V φ o o' (c.constantAdded x v) (d.constantAdded (φ x) v') where
  view := t.view
  tables :=
    { t.tables with
      layout := by
        simp [Context.constantAdded, t.tables.layout, Parameter.layout, shape, t.tables.length]
      constants := by simp [Context.constantAdded, t.tables.constants, t.tables.length]
      values := fun h => by simp [Context.constantAdded, t.tables.values h, same h] }

theorem Twins.injectedAdded (name : String) {v v' : Value} (shape : v'.shape = v.shape)
    (same : V → v' = v) : Twins V φ o o' (c.injectedAdded name v) (d.injectedAdded name v') where
  view := t.view
  tables :=
    { t.tables with
      layout := by
        simp [Context.injectedAdded, t.tables.layout, Parameter.layout, shape, t.tables.length]
      injected := by simp [Context.injectedAdded, t.tables.injected, t.tables.length]
      values := fun h => by simp [Context.injectedAdded, t.tables.values h, same h] }

end

/-! ## fresh twins -/

theorem workgroupSize_congr (workgroup : o'.workgroup = o.workgroup) :
    o'.workgroupSize = o.workgroupSize := by
  unfold Options.workgroupSize
  rw [workgroup]

section
variable (position : φ Graph.positionId = Graph.positionId) (workgroup : o'.workgroup = o.workgroup)
include position workgroup

theorem Twins.new : Twins V φ o o' (Context.new o) (Context.new o') where
  view := by
    simp only [Context.view, Context.new, placedScope, Scope.view, workgroupSize_congr workgroup,
      List.map_toArray, List.map_cons, List.map_nil, position, id]
  tables := ⟨rfl, rfl, rfl, rfl, rfl, fun _ => rfl⟩

theorem Twins.opened :
    Twins V φ o o' (Context.opened o) (Context.opened o') :=
  ⟨view_opened id position rfl (workgroupSize_congr workgroup).symm, rfl, rfl, rfl, rfl,
    rfl, fun _ => rfl⟩

end

end

end Compile
end Terrain
