import Mathlib.Data.List.Forall2
import Terrain.Proofs.Built
import Terrain.Proofs.Kept

/-!
# The symbols at hand

A function remembers the symbol of every node that was generated in it.  The symbol tells the
shape of the node: by the line that declares it, or by the slot it reads.

* `Quiet`              a change that remembers no symbol;
* `Scope.shapeOf`      the shape of a symbol in a function;
* `shapeOf_declared`   a local has the shape in which it was declared.
-/

namespace Terrain.Compile

open Kernel Hash List

variable {σ : Shape} {n : Node}

/-! ## changes that remember nothing -/

/-- functions keep the symbols they had, and a new one of a dispatch has the position at hand -/
structure Quiet (c c' : Context) : Prop where
  grows : Grows c c'
  symbols : ∀ i < c.scopes.size, (c'.scope i).symbols = (c.scope i).symbols
  new : ∀ i < c'.scopes.size, c.scopes.size ≤ i → (c'.scope i).hasPosition = true →
    (c'.scope i).symbols = [(Graph.positionId, .var .position)]

section
variable {c c' : Context}

theorem Quiet.refl (c : Context) : Quiet c c :=
  ⟨.refl c, fun _ _ => rfl, fun _ inside new => absurd inside (not_lt.2 new)⟩

theorem Quiet.trans {d : Context} (h : Quiet c c') (h' : Quiet c' d) : Quiet c d where
  grows := h.grows.trans h'.grows
  symbols i inside :=
    (h'.symbols i (inside.trans_le h.grows.scopes)).trans (h.symbols i inside)
  new i inside new position := by
    rcases lt_or_ge i c'.scopes.size with old | new'
    · rw [(h'.grows.scope i old).placed] at position
      rw [h'.symbols i old]
      exact h.new i old new position
    · exact h'.new i inside new' position

theorem Quiet.of_grows (grows : Grows c c') (size : c'.scopes.size = c.scopes.size)
    (symbols : ∀ i < c.scopes.size, (c'.scope i).symbols = (c.scope i).symbols) : Quiet c c' :=
  ⟨grows, symbols, fun i inside new => by omega⟩

theorem symbols_modifyScope (c : Context) (i : ScopeId) (f : Scope → Scope)
    (h : ∀ s, (f s).symbols = s.symbols) :
    ∀ j < c.scopes.size, ((c.modifyScope i f).scope j).symbols = (c.scope j).symbols := by
  intro j inside
  rw [scope_modifyScope c i j f inside]
  split
  · exact h _
  · rfl

variable (c)

theorem quiet_fold (token : List UInt8) : Quiet c (c.fold token) :=
  .of_grows (Change.fold c token).grows rfl fun _ _ => rfl

theorem quiet_requiredAll (rs : List Routine) : Quiet c (c.requiredAll rs) := by
  induction rs generalizing c with
  | nil => exact .refl c
  | cons r rs ih =>
    have head : Quiet c (c.required r) := .of_grows (Change.required c r).grows rfl fun _ _ => rfl
    exact head.trans (ih _)

theorem quiet_declared (shape : Shape) (e : Expr) : Quiet c (c.declared shape e) :=
  .of_grows (Change.declared c shape e).grows (size_modifyScope _ _ _)
    (symbols_modifyScope { c with names := c.names + 1 } c.current _ fun _ => rfl)

theorem quiet_called (function : String) (shape : Shape) (args : List Symbol) :
    Quiet c (c.called function shape args) :=
  .of_grows (Change.called c function shape args).grows (size_modifyScope _ _ _)
    (symbols_modifyScope { c with names := c.names + 1 } c.current _ fun _ => rfl)

variable {c}

theorem ConstantSlot.quiet {id : NodeId} {v : Value} {slot : Nat}
    (h : ConstantSlot id v c slot c') : Quiet c c' := by
  cases h with
  | again => exact .refl c
  | first unknown => exact .of_grows (Change.constantAdded c id v unknown).grows rfl fun _ _ => rfl

theorem InjectedSlot.quiet {name : String} {v : Value} {slot : Nat}
    (h : InjectedSlot name v c slot c') : Quiet c c' := by
  cases h with
  | again => exact .refl c
  | first unknown =>
    exact .of_grows (Change.injectedAdded c name v unknown).grows rfl fun _ _ => rfl

theorem quiet_nestedAdded (caller : ScopeId) (spec : Nested) (inputs : List Wire) (t : Template)
    (unknown : c.nested.lookup spec.key = none) : Quiet c (c.nestedAdded caller spec inputs t) where
  grows := (Change.nestedAdded c caller spec inputs t unknown).grows
  symbols i inside := by
    refine congrArg Scope.symbols ((scope_push c _ i).trans ?_)
    rw [if_neg (inside.ne)]
  new i inside new position := by
    rw [eq_size_of_push inside new, scope_nestedAdded] at position
    cases position

theorem FunctionOf.quiet {spec : Nested} {inputs : List Wire} {t : Template} {id : ScopeId}
    (h : FunctionOf spec inputs t c id c') : Quiet c c' := by
  cases h with
  | again known =>
    refine (quiet_fold c _).trans (.of_grows (Change.deepened (c.fold _) _ _ _ known).grows
      (size_modifyScope _ _ _) ?_)
    refine symbols_modifyScope _ _ _ fun s => ?_
    split <;> rfl
  | first unknown =>
    exact (quiet_fold c _).trans (quiet_nestedAdded _ _ _ _ unknown)

theorem quiet_cacheOpened (n : Node) {reader : DispatchId} (reduction : Int)
    (reads : c.currentScope.dispatch = some reader) (unknown : c.caches.lookup n.id = none) :
    Quiet c (c.cacheOpened n reader reduction) where
  grows := (Change.cacheOpened c n reader reduction reads unknown).grows
  symbols i inside := by
    refine congrArg Scope.symbols ((scope_push c _ i).trans ?_)
    rw [if_neg (inside.ne)]
  new i inside new _ := by
    rw [eq_size_of_push inside new, scope_cacheOpened]
    rfl

theorem quiet_readAgain {node : NodeId} {reader id : DispatchId}
    (reads : c.currentScope.dispatch = some reader) (known : c.caches.lookup node = some id) :
    Quiet c (c.readAgain reader id) := by
  have scopes : (c.readAgain reader id).scopes = c.scopes := by rw [readAgain_frame]
  refine .of_grows (Change.readAgain c node reader id reads known).grows (by rw [scopes]) ?_
  intro i _
  unfold Context.scope
  rw [scopes]

theorem quiet_cacheClosed (c : Context) (id : DispatchId) (name : String) (shape : Shape)
    (s : Symbol) : Quiet c (c.cacheClosed id name shape s) :=
  .of_grows (Change.cacheClosed c id name shape s).grows (size_modifyScope _ _ _)
    (symbols_modifyScope c c.current _ fun _ => rfl)

theorem quiet_rooted (c : Context) (r : Root) (shape : Shape) (s : Symbol) :
    Quiet c (c.rooted r shape s) :=
  .of_grows (Change.rooted c r shape s).grows (size_modifyScope _ _ _)
    (symbols_modifyScope c rootId _ fun _ => rfl)

/-! ## shapes of symbols -/

/-- the shape in which a line declares a variable -/
def declaredShape (v : Var) (l : Indented) : Option Shape :=
  match l.line.declares with
  | some (w, shape) => if w = v then some shape else none
  | none => none

def Scope.shapeOf (s : Scope) : Symbol → Option Shape
  | .param _ shape => some shape.solid
  | .var .position => some .vec3
  | .var v => (s.lines.toList.findSome? (declaredShape v)).map Shape.solid

theorem shapeOf_extends {low high : Nat} {s s' : Scope} {x : Symbol}
    (h : ScopeExtends low high s s') (known : s.shapeOf x = some σ) : s'.shapeOf x = some σ := by
  obtain ⟨more, lines, -⟩ := h.lines
  unfold Scope.shapeOf at known ⊢
  split
  case h_1 => exact known
  case h_2 => exact known
  case h_3 v other =>
    have found : (s.lines.toList.findSome? (declaredShape v)).map Shape.solid = some σ := by
      split at known
      case h_1 e => cases e
      case h_2 e => cases e; exact absurd rfl other
      case h_3 w _ e => cases e; exact known
    obtain ⟨τ, first, solid⟩ := Option.map_eq_some_iff.1 found
    rw [lines, findSome?_append, first]
    exact congrArg some solid

/-- a variable that no name so far has is not declared -/
theorem declaredShape_none (k : Kept c) {i : ScopeId} (inside : i < c.scopes.size)
    (position : (c.scope i).hasPosition = true) {v : Var} {n : Nat} (above : c.names < n)
    (named : v = .bound n ∨ v = .result n) :
    (c.scope i).lines.toList.findSome? (declaredShape v) = none := by
  rw [findSome?_eq_none_iff]
  intro l member
  unfold declaredShape
  split
  case h_2 => rfl
  case h_1 w shape declares =>
    rw [if_neg]
    rintro rfl
    obtain ⟨m, -, le, same⟩ :=
      k.serials i inside position l member _ (Line.sets_of_declares declares)
    rcases named with rfl | rfl <;> rcases same with same | same <;> cases same <;> omega

theorem shapeOf_push (s : Scope) {v : Var} (shape : Shape) (l : Indented) (more : List Indented)
    (declares : l.line.declares = some (v, shape)) (other : v ≠ .position)
    (unknown : s.lines.toList.findSome? (declaredShape v) = none) (s' : Scope)
    (lines : s'.lines.toList = s.lines.toList ++ l :: more) :
    s'.shapeOf (.var v) = some shape.solid := by
  have here : declaredShape v l = some shape := by
    unfold declaredShape
    rw [declares]
    exact if_pos rfl
  unfold Scope.shapeOf
  split
  case h_1 e => cases e
  case h_2 e => cases e; exact absurd rfl other
  case h_3 w _ e =>
    cases e
    rw [lines, findSome?_append, unknown, Option.none_or, findSome?_cons, here]
    rfl

theorem shapeOf_declared (k : Kept c) (shape : Shape) (e : Expr) :
    ((c.declared shape e).scope c.current).shapeOf c.nextBound = some shape.solid := by
  obtain ⟨inside, position⟩ := k.current
  have unknown := declaredShape_none k inside position (lt_add_one _) (.inl rfl)
  refine shapeOf_push (c.scope c.current) shape ⟨0, .bind (.bound (c.names + 1)) shape e⟩ [] rfl
    (by simp) unknown _ ?_
  have scope := scope_modifyScope { c with names := c.names + 1 } c.current c.current
    (fun s => { s.push ⟨0, .bind (.bound (c.names + 1)) shape e⟩ with bound := s.bound + 1 }) inside
  rw [if_pos rfl] at scope
  exact (congrArg (fun s : Scope => s.lines.toList) scope).trans (by simp [Scope.push]; rfl)

theorem shapeOf_called (k : Kept c) (function : String) (shape : Shape) (args : List Symbol) :
    ((c.called function shape args).scope c.current).shapeOf (.var (.result (c.names + 1))) =
      some shape.solid := by
  obtain ⟨inside, position⟩ := k.current
  have unknown := declaredShape_none k inside position (lt_add_one _) (.inr rfl)
  refine shapeOf_push (c.scope c.current) shape ⟨0, .declare (.result (c.names + 1)) shape⟩
    [⟨0, .call function args (.result (c.names + 1))⟩] rfl (by simp) unknown _ ?_
  have scope := scope_modifyScope { c with names := c.names + 1 } c.current c.current
    (fun s => { (s.push ⟨0, .declare (.result (c.names + 1)) shape⟩).push
      ⟨0, .call function args (.result (c.names + 1))⟩ with bound := s.bound + 1 }) inside
  rw [if_pos rfl] at scope
  exact (congrArg (fun s : Scope => s.lines.toList) scope).trans (by simp [Scope.push]; rfl)

/-! ## shapes of nodes -/

variable {g : Graph}

theorem shape_position (wf : g.WellFormed) (found : g.get? Graph.positionId = some n) :
    n.shape = .vec3 := by
  have op := (wf.position found).2 rfl
  rcases wf.takes found with takes | ⟨name, s, w, other, -⟩
  · rw [op] at takes
    have none := eq_nil_of_length_eq_zero takes
    simp only [Node.shape, Node.typing, op, none]
    rfl
  · rw [op] at other
    cases other

theorem typing_inputs {ws : List Wire} (h : n.inputs = ws.map some) :
    n.typing = n.op.typingOf (ws.map Wire.shape) := by
  have present (ws : List Wire) :
      presentShapes ((ws.map some).map (·.map Wire.shape)) = some (ws.map Wire.shape) := by
    induction ws with
    | nil => rfl
    | cons w ws ih =>
      show (presentShapes ((ws.map some).map (·.map Wire.shape))).map (w.shape :: ·) = _
      rw [ih]
      rfl
  unfold Node.typing Op.typing
  rw [h, present]

theorem shape_of_cast {target : Shape} {w : Wire} (op : n.op = .cast target)
    (inputs : n.inputs = [some w]) (typed : n.typing = .ok n.shape) : n.shape = target := by
  have typing := @typing_inputs n [w] inputs
  rw [op, typed] at typing
  simp only [map_cons, map_nil, Op.typingOf] at typing
  split at typing
  · exact Except.ok.inj typing
  · cases typing

theorem typingOf_fractal {kind : NoiseKind} {octaves : Int} {shapes : List Shape}
    (h : (Op.fractal kind octaves).typingOf shapes = .ok σ) :
    σ = .float ∧ ∃ p, p.isVector = true ∧ shapes = [p, .float, .float] := by
  unfold Op.typingOf at h
  grind

theorem typingOf_cellular {metric : Metric} {feature : CellFeature} {shapes : List Shape}
    (h : (Op.cellular metric feature).typingOf shapes = .ok σ) :
    σ = .float ∧ ∃ p, p.isVector = true ∧ shapes = [p] := by
  unfold Op.typingOf at h
  grind

theorem shape_of_nested {r : Routine} {spec : Nested} {t : Template}
    (parts : nestedParts n = some (r, spec, t)) (typed : n.typing = .ok n.shape) :
    n.shape = spec.result := by
  unfold Node.typing Op.typing at typed
  split at typed
  case h_2 => split at typed <;> cases typed
  case h_1 shapes _ =>
    unfold nestedParts at parts
    split at parts
    case h_1 kind octaves op =>
      cases parts
      rw [op] at typed
      exact (typingOf_fractal typed).1
    case h_2 metric feature op =>
      cases parts
      rw [op] at typed
      exact (typingOf_cellular typed).1
    case h_3 => cases parts

end

end Terrain.Compile
