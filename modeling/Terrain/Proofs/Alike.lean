import Terrain.Proofs.Operands
import Terrain.Proofs.Twins

/-!
# Contexts that look alike

Two compilations of different graphs are compared without regard to the numbers of nodes, and with
their slots seen through a map.  A change that is made to both contexts keeps them alike.

* `Alike`              contexts that look alike;
* `Tables`             what is asked of the tables of parameters;
* `Mirrored.shapeOf`   symbols that look alike have shapes that look alike;
* `Mirrored.computed`  nodes of one bare form have code that looks alike.
-/

namespace Terrain

open Compile Kernel Hash List

/-- is the node a constant? -/
def Graph.isConstant (g : Graph) (id : NodeId) : Bool :=
  (g.get? id).any fun n => n.op.form = .constant

namespace Compile

/-! ## contexts that look alike -/

/-- node numbers are forgotten -/
def forget : NodeId → NodeId := fun _ => Graph.positionId

/-- contexts that are the same but for the numbers of nodes and for slots, which are seen
through `ρ` -/
abbrev Alike (ρ : SlotMap) (T : Context → Context → Prop) : Context → Context → Prop :=
  Mirrored forget forget ρ T

/-- how slots are seen, and what becomes of the tables of parameters when `a` and `b` are generated
in step with each other -/
structure Tables (ρ : SlotMap) (T : Context → Context → Prop) (P : NodeId → NodeId → Prop) :
    Prop where
  /-- a slot is not seen better than its text -/
  coarse : ∀ p q, solidSlot p = solidSlot q → ρ p = ρ q
  /-- its shape is seen as well as its text tells it -/
  shape : ∀ p, (ρ p).2 = p.2.solid
  constant : ∀ {a b v v' c d slot slot' c' d'}, T c d → P a b → v.shape = v'.shape →
    ConstantSlot a v c slot c' → ConstantSlot b v' d slot' d' →
    T c' d' ∧ ρ (slot, v.shape) = ρ (slot', v'.shape)
  inject : ∀ {name v v' c d slot slot' c' d'}, T c d → v.shape = v'.shape →
    InjectedSlot name v c slot c' → InjectedSlot name v' d slot' d' →
    T c' d' ∧ ρ (slot, v.shape) = ρ (slot', v'.shape)

section
variable {ρ : SlotMap} {T : Context → Context → Prop} {P : NodeId → NodeId → Prop}
  {c d c' d' : Context}

theorem forget_wires {ws vs : List Wire} (shapes : ws.map Wire.shape = vs.map Wire.shape) :
    ws.map (fun w => (⟨forget w.source, w.shape⟩ : Wire)) = vs.map fun w =>
      ⟨forget w.source, w.shape⟩ := by
  have forgotten (us : List Wire) : us.map (fun w => (⟨forget w.source, w.shape⟩ : Wire)) =
      (us.map Wire.shape).map fun s => ⟨Graph.positionId, s⟩ := by
    rw [map_map]
    rfl
  rw [forgotten, forgotten, shapes]

/-! ## symbols that look alike -/

theorem relabel_coarse (t : Tables ρ T P) {s s' : Symbol}
    (h : s.relabel solidSlot = s'.relabel solidSlot) : s.relabel ρ = s'.relabel ρ := by
  cases s with
  | var v =>
    cases s' with
    | var w => exact h
    | param => cases h
  | param slot shape =>
    cases s' with
    | var w => cases h
    | param slot' shape' =>
      have same := t.coarse (slot, shape) (slot', shape') (by
        simp only [Symbol.relabel, Symbol.param.injEq] at h
        exact Prod.ext h.1 h.2)
      simp only [Symbol.relabel, same]

theorem declaredShape_relabel (r : SlotMap) (v : Var) (l : Indented) :
    declaredShape v (l.relabel r) = declaredShape v l := by
  have same : (l.relabel r).line.declares = l.line.declares := by
    cases h : l.line <;> simp [Indented.relabel, Line.relabel, Line.declares, h]
  unfold declaredShape
  rw [same]

theorem Mirrored.shapeOf (a : Alike ρ T c d) (t : Tables ρ T P) (i : ScopeId) {s s' : Symbol}
    (same : s.relabel ρ = s'.relabel ρ) : (c.scope i).shapeOf s = (d.scope i).shapeOf s' := by
  have lines : (c.scope i).lines.map (Indented.relabel ρ) =
      (d.scope i).lines.map (Indented.relabel ρ) := congrArg Scope.lines (a.scope i)
  cases s with
  | param slot shape =>
    cases s' with
    | var w => cases same
    | param slot' shape' =>
      have looks : (ρ (slot, shape)).2 = (ρ (slot', shape')).2 := by
        simp only [Symbol.relabel, Symbol.param.injEq] at same
        exact same.2
      rw [t.shape, t.shape] at looks
      exact congrArg some looks
  | var v =>
    cases s' with
    | param => cases same
    | var w =>
      cases same
      have found (x : Scope) : x.lines.toList.findSome? (declaredShape v) =
          (x.lines.map (Indented.relabel ρ)).toList.findSome? (declaredShape v) := by
        rw [Array.toList_map, findSome?_map]
        congr 1
        funext l
        exact (declaredShape_relabel ρ v l).symm
      have declared := congrArg (fun ls => ls.toList.findSome? (declaredShape v)) lines
      rw [← found, ← found] at declared
      cases v with
      | position => rfl
      | _ => exact congrArg (Option.map Shape.solid) declared

theorem isValue_of_shapeOf (k : Kept c) {i : ScopeId} (inside : i < c.scopes.size)
    (position : (c.scope i).hasPosition = true) {s : Symbol} {σ : Shape}
    (h : (c.scope i).shapeOf s = some σ) : s.IsValue := by
  unfold Scope.shapeOf at h
  split at h
  case h_1 => exact .param _ _
  case h_2 => exact .position
  case h_3 v _ =>
    obtain ⟨τ, found, -⟩ := Option.map_eq_some_iff.1 h
    obtain ⟨l, member, here⟩ := exists_of_findSome?_eq_some found
    unfold declaredShape at here
    split at here
    case h_2 => cases here
    case h_1 w shape declares =>
      split at here
      case isFalse => cases here
      case isTrue same =>
        obtain ⟨m, -, -, var⟩ :=
          k.serials i inside position l member w (Line.sets_of_declares declares)
        subst same
        rcases var with rfl | rfl
        · exact .bound m
        · exact .result m

/-! ## nodes of one form -/

theorem relabel_map_sym (r : SlotMap) (ss : List Symbol) :
    (ss.map Expr.sym).map (Expr.relabel r) = (ss.map (Symbol.relabel r)).map Expr.sym := by
  rw [map_map, map_map]
  rfl

theorem computed_view (f : NodeId → NodeId) (r : SlotMap) (n : Node) (ss : List Symbol)
    (c : Context) : computed n (ss.map (Symbol.relabel r)) (c.view f r) =
      ((computed n ss c).1.relabel r, (computed n ss c).2.view f r) := by
  have termed (es : List Expr) : (term n es).relabel r = term n (es.map (Expr.relabel r)) :=
    term_subst _ n es
  generalize code : computed n ss c = x
  unfold computed at code
  split at code
  case h_1 target s op =>
    unfold computed
    rw [op]
    simp only [map_cons, map_nil]
    split at code
    case isTrue fits => rw [if_pos fits, ← code]
    case isFalse differs =>
      rw [if_neg differs, ← code, view_declared, termed]
      rfl
  case h_2 metric a b op =>
    unfold computed
    rw [op, ← code]
    simp only [map_cons, map_nil, view_declared]
    have measured := Expr.metric_subst (fun s => .sym (s.relabel r)) metric (.sym c.nextBound)
      (n.inputShape 0)
    refine Prod.ext rfl ?_
    exact congrArg (Context.declared _ n.shape) measured.symm
  case h_3 noCast noDistance =>
    rw [← code, view_declared, view_requiredAll, termed, relabel_map_sym]
    unfold computed
    split
    case h_1 target s op list =>
      obtain ⟨s', rfl, -⟩ := map_eq_singleton_iff.1 list
      exact absurd rfl (noCast target s' op)
    case h_2 metric a b op list =>
      obtain ⟨a', _, rfl, -, rest⟩ := map_eq_cons_iff.1 list
      obtain ⟨b', rfl, -⟩ := map_eq_singleton_iff.1 rest
      exact absurd rfl (noDistance metric a' b' op)
    case h_3 => rfl

theorem sameTables_computed (n : Node) (ss : List Symbol) (c : Context) :
    SameTables c (computed n ss c).2 := by
  have routines (rs : List Routine) : SameTables c (c.requiredAll rs) := by
    induction rs generalizing c with
    | nil => exact ⟨rfl, rfl, rfl, rfl⟩
    | cons r rs ih =>
      obtain ⟨h₁, h₂, h₃, h₄⟩ := ih (c.required r)
      exact ⟨h₁, h₂, h₃, h₄⟩
  unfold computed
  split
  case h_1 => split <;> exact ⟨rfl, rfl, rfl, rfl⟩
  case h_2 => exact ⟨rfl, rfl, rfl, rfl⟩
  case h_3 =>
    obtain ⟨h₁, h₂, h₃, h₄⟩ := routines (termRoutines n)
    exact ⟨h₁, h₂, h₃, h₄⟩

theorem Mirrored.computed [Framed T] (a : Alike ρ T c d) {n m : Node} (bare : n.bare = m.bare)
    {ss ss' : List Symbol} (same : ss.map (Symbol.relabel ρ) = ss'.map (Symbol.relabel ρ)) :
    Alike ρ T (computed n ss c).2 (computed m ss' d).2 ∧
      (computed n ss c).1.relabel ρ = (computed m ss' d).1.relabel ρ := by
  have code : Compile.computed n (ss.map (Symbol.relabel ρ)) (c.view forget ρ) =
      Compile.computed m (ss'.map (Symbol.relabel ρ)) (d.view forget ρ) := by
    rw [← computed_bare n, ← computed_bare m, bare, same, a.view]
  rw [computed_view, computed_view] at code
  obtain ⟨symbol, view⟩ := Prod.mk.inj code
  exact ⟨a.change view (sameTables_computed n ss c) (sameTables_computed m ss' d), symbol⟩

end

end Compile
end Terrain
