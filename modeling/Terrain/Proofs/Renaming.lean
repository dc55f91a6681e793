import Terrain.Proofs.Twins

/-!
# Numbers and values never reach a program

Two graphs that are the same up to a renumbering of their nodes, the values of constants and the
fallbacks of parameters compile alike: both to programs that differ in the values of parameters
only, or both to failures that say the same up to the numbers of nodes, so they are of one kind.

* `agree_emitOp`         the rules of two counterparts agree;
* `agree_emit`           generating a node and generating its counterpart agree;
* `validate_renamed`     both sets of outputs are accepted, or both are refused;
* `compile_renamed`      whole compilations agree.
-/

namespace Terrain.Compile

open Kernel Hash List

section
variable {V : Prop} {S : NodeId → Prop} {φ : Equiv.Perm NodeId} {o o' : Options} {c d : Context}
  {visit visit' : Visit} {n m : Node}

/-- steps that agree up to the renumbering, the values and the numbers in failures -/
abbrev AgreeUpTo {α : Type} (V : Prop) (φ : Equiv.Perm NodeId) (o o' : Options) (m : EmitM α)
    (c : Context) (m' : EmitM α) (d : Context) : Prop :=
  Agree (Failure.Alike V) (Twins V φ o o') Eq m c m' d

/-- two ways to generate nodes that agree on counterparts, for the nodes in `S` -/
def VisitsAgree (V : Prop) (S : NodeId → Prop) (φ : Equiv.Perm NodeId) (o o' : Options)
    (visit visit' : Visit) : Prop :=
  ∀ id, S id → ∀ c d, Twins V φ o o' c d → AgreeUpTo V φ o o' (visit id) c (visit' (φ id)) d

/-- a node over nodes in `S` and its counterpart; where `V` holds they have the same values -/
structure Counterparts (V : Prop) (S : NodeId → Prop) (φ : NodeId → NodeId) (o o' : Options)
    (n m : Node) : Prop extends Node.Renamed φ o o' n m where
  sources : ∀ w, some w ∈ n.inputs → S w.source
  same : V → m.op = n.op
  bindings : V → ∀ name, o.bindings.lookup name = o'.bindings.lookup name

theorem agree_declare (shape : Shape) (e : Expr) (t : Twins V φ o o' c d) :
    AgreeUpTo V φ o o' (declare shape e) c (declare shape e) d :=
  .of_ok (outcome_declare _ _ c) (outcome_declare _ _ d) t.nextBound (t.declared _ rfl)

/-! ## operands and parameters -/

theorem agree_visitAll (step : VisitsAgree V S φ o o' visit visit')
    {missing missing' : Nat → CompileError}
    (same : ∀ i, Failure.Alike V (.refused (missing i)) (.refused (missing' i))) (i : Nat)
    {ws : List (Option Wire)} (sources : ∀ w, some w ∈ ws → S w.source) (t : Twins V φ o o' c d) :
    AgreeUpTo V φ o o' (visitAll visit missing i ws) c
      (visitAll visit' missing' i (ws.map (·.map (Wire.renamed φ)))) d := by
  induction ws generalizing i c d with
  | nil => exact .pure rfl t
  | cons w ws ih =>
    cases w with
    | none => exact .refuse (same i) t
    | some w =>
      refine .bind (step w.source (sources w (.head _)) c d t) ?_
      rintro s _ c' d' rfl t
      refine .bind (ih (i + 1) (fun w there => sources w (.tail _ there)) t) ?_
      rintro ss _ c' d' rfl t
      exact .pure rfl t

theorem agree_emitInputs (step : VisitsAgree V S φ o o' visit visit')
    (r : Counterparts V S φ o o' n m) (t : Twins V φ o o' c d) :
    AgreeUpTo V φ o o' (emitInputs visit n) c (emitInputs visit' m) d := by
  unfold emitInputs
  rw [r.inputs, r.typing, emitInputsFrom_eq, emitInputsFrom_eq]
  refine .bind (agree_visitAll step (fun i => r.toRenamed.atNode fun _ => rfl) 0 r.sources t) ?_
  rintro ss _ c' d' rfl t
  cases n.typing with
  | error fault => exact .refuse (r.toRenamed.shapeAt fun _ => rfl) t
  | ok σ => exact .pure rfl t

theorem agree_emitConstant (r : Counterparts V S φ o o' n m) {v v' : Value}
    (shape : v'.shape = v.shape) (same : V → v' = v) (t : Twins V φ o o' c d) :
    AgreeUpTo V φ o o' (emitConstant n v) c (emitConstant m v') d := by
  unfold emitConstant
  rw [shape]
  split
  · refine .get ?_
    rw [r.id, t.lookup_constant]
    cases c.constantSlots.lookup n.id with
    | some slot => exact .pure rfl t
    | none => exact .of_ok rfl rfl (by rw [t.tables.length]) (t.constantAdded n.id shape same)
  · exact .refuse (r.toRenamed.shapeAt fun _ => rfl) t

theorem Twins.shape_at (t : Twins V φ o o' c d) (i : Nat) :
    (d.parameters[i]?).map Parameter.shape = (c.parameters[i]?).map Parameter.shape := by
  have same := congrArg (fun l => (l[i]?).map Slot.shape) t.layout
  simp only [getElem?_map, Option.map_map] at same
  exact same.symm

theorem agree_injectedSlot (name : String) {v v' : Value} (shape : v'.shape = v.shape)
    (same : V → v' = v) (t : Twins V φ o o' c d) :
    AgreeUpTo V φ o o' (injectedSlot name v) c (injectedSlot name v') d := by
  unfold injectedSlot
  refine .get ?_
  rw [t.tables.injected]
  cases d.injectedSlots.lookup name with
  | some slot =>
    dsimp only
    rw [t.shape_at, shape]
    split
    · exact .pure rfl t
    · exact .refuse (.refl _) t
  | none => exact .of_ok rfl rfl t.tables.length (t.injectedAdded name shape same)

theorem agree_emitInject (name : String) (s : Shape) {a b : Option Value}
    (bound : ((o.bindings.lookup name).or a).map Value.shape =
      ((o'.bindings.lookup name).or b).map Value.shape)
    (same : V → (o'.bindings.lookup name).or b = (o.bindings.lookup name).or a)
    (t : Twins V φ o o' c d) :
    AgreeUpTo V φ o o' (emitInject name s a) c (emitInject name s b) d := by
  unfold emitInject
  split
  · refine .get ?_
    rw [t.tables.left, t.tables.right]
    dsimp only
    cases left : (o.bindings.lookup name).or a with
    | none =>
      rw [left] at bound
      rw [Option.map_eq_none_iff.1 bound.symm]
      exact .refuse (.refl _) t
    | some v =>
      rw [left] at bound
      obtain ⟨v', right, shape⟩ := Option.map_eq_some_iff.1 bound.symm
      rw [left, right] at same
      rw [right]
      dsimp only
      rw [shape]
      split
      · refine .bind (agree_injectedSlot name shape (fun h => Option.some.inj (same h)) t) ?_
        rintro slot _ c' d' rfl t
        exact .pure rfl t
      · exact .refuse (.refl _) t
  · exact .refuse (.refl _) t

/-! ## nested functions and caches -/

theorem agree_callNested (spec : Nested) (inputs : List Wire) (x : Template) (ss : List Symbol)
    (t : Twins V φ o o' c d) :
    AgreeUpTo V φ o o' (callNested spec inputs (templateBody x) ss) c
      (callNested spec (inputs.map (Wire.renamed φ)) (templateBody x) ss) d := by
  have call {e e' : Context} (t : Twins V φ o o' e e') (i : ScopeId) :
      (Symbol.var (.result (e.names + 1)) = .var (.result (e'.names + 1))) ∧
        Twins V φ o o' (e.called (e.scope i).name spec.result ss)
          (e'.called (e'.scope i).name spec.result ss) := by
    rw [t.names, t.scopeName]
    exact ⟨rfl, t.called _ _ rfl⟩
  cases known : c.nested.lookup spec.key with
  | some i =>
    have known' : d.nested.lookup spec.key = some i := by rw [← t.nested, known]
    have twins := (t.fold ([Tag.scopeCall] ++ Token.str (c.scope i).name)).deepened i
      (c.currentScope.depth + 1)
    have right := outcome_callNested_again (inputs.map (Wire.renamed φ)) (templateBody x) ss known'
    rw [← t.scopeName, ← t.depth] at right
    exact .of_ok (outcome_callNested_again _ _ ss known) right (call twins i).1 (call twins i).2
  | none =>
    have known' : d.nested.lookup spec.key = none := by rw [← t.nested, known]
    have wires : inputs.map (fun w => (⟨φ w.source, w.shape⟩ : Wire)) =
        (inputs.map (Wire.renamed φ)).map fun w => ⟨id w.source, w.shape⟩ := by
      rw [map_map]
      rfl
    have twins := (t.fold ([Tag.scope] ++ Token.str spec.key)).nestedAdded c.current spec x wires
    have right := outcome_callNested_first (inputs.map (Wire.renamed φ)) x ss known'
    rw [← t.current, ← t.scopes] at right
    exact .of_ok (outcome_callNested_first _ _ ss known) right
      (call twins c.scopes.size).1 (call twins c.scopes.size).2

theorem filterMap_renamed (ws : List (Option Wire)) :
    (ws.map (·.map (Wire.renamed φ))).filterMap id = (ws.filterMap id).map (Wire.renamed φ) := by
  induction ws with
  | nil => rfl
  | cons w ws ih => cases w <;> simp_all

theorem agree_emitNested (step : VisitsAgree V S φ o o' visit visit')
    (r : Counterparts V S φ o o' n m) (spec : Nested) (x : Template) (t : Twins V φ o o' c d) :
    AgreeUpTo V φ o o' (emitNested visit spec n.inputs (templateBody x)) c
      (emitNested visit' spec m.inputs (templateBody x)) d := by
  unfold emitNested
  rw [r.inputs, filterMap_renamed, mapM_visitWire 0, mapM_visitWire 0]
  refine .bind (agree_visitAll step (fun _ => .refl _) 0 r.sources t) ?_
  rintro ss _ c' d' rfl t
  exact agree_callNested spec _ x ss t

section
variable (step : VisitsAgree V S φ o o' visit visit')
  (position : φ Graph.positionId = Graph.positionId) (r : Counterparts V S φ o o' n m)
include step position r

theorem agree_cacheDispatch {value : NodeId} (source : S value) (reduction : Int)
    (t : Twins V φ o o' c d) : AgreeUpTo V φ o o' (cacheDispatch visit n value reduction) c
      (cacheDispatch visit' m (φ value) reduction) d := by
  have lookup : d.caches.lookup m.id = c.caches.lookup n.id := by rw [r.id, t.lookup_cache]
  cases reads : c.currentScope.dispatch with
  | none =>
    unfold cacheDispatch
    refine .get ?_
    rw [← t.dispatch, reads]
    exact .refuse (r.toRenamed.atNode fun _ => rfl) t
  | some reader =>
    have reads' : d.currentScope.dispatch = some reader := t.dispatch.symm.trans reads
    cases known : c.caches.lookup n.id with
    | some i =>
      exact .of_ok (outcome_cacheDispatch_again reads known)
        (outcome_cacheDispatch_again reads' (lookup.trans known)) rfl (t.readAgain reader i)
    | none =>
      unfold AgreeUpTo Agree
      rw [outcome_cacheDispatch_first reads known,
        outcome_cacheDispatch_first reads' (lookup.trans known)]
      have body := step value source _ _
        (t.cacheOpened position rfl r.id.symm r.shape.symm reader reduction)
      unfold AgreeUpTo Agree at body
      rw [← t.entries, ← t.cacheName, r.shape]
      -- both bodies succeed, are refused or fault together
      generalize outcome (visit value) (c.cacheOpened n reader reduction) = x at body
      generalize outcome (visit' (φ value)) (d.cacheOpened m reader reduction) = y at body
      obtain ⟨x, e⟩ := x
      obtain ⟨y, e'⟩ := y
      cases x with
      | ok s =>
        cases y with
        | error b => exact body.elim
        | ok s' =>
          obtain ⟨rfl, t⟩ := body
          exact ⟨rfl, t.cacheClosed _ _ _ rfl⟩
      | error a =>
        cases y with
        | ok s' => exact body.elim
        | error b =>
          obtain ⟨kind, t⟩ := body
          cases a with
          | fault f =>
            cases b with
            | refused b => exact kind.1.elim
            | fault f' => exact ⟨kind, t⟩
          | refused a =>
            cases b with
            | fault f => exact kind.1.elim
            | refused b => exact ⟨kind, t.popped⟩

theorem agree_emitCache (reduction : Int) (t : Twins V φ o o' c d) :
    AgreeUpTo V φ o o' (emitCache visit n reduction) c (emitCache visit' m reduction) d := by
  unfold emitCache
  dsimp only
  split
  · exact .refuse_bind (.refl _) t
  rw [r.typing, r.inputs]
  have sources := r.sources
  generalize n.inputs = inputs at sources ⊢
  cases n.typing with
  | error fault => exact .refuse (r.toRenamed.shapeAt fun _ => rfl) t
  | ok σ =>
    rcases inputs with _ | ⟨_ | w, _ | ⟨w', ws⟩⟩
    case cons.some.nil =>
      refine .get ?_
      rw [← t.hasPosition]
      split
      · have source := sources w (.head _)
        refine .bind (agree_cacheDispatch step position r source reduction t) ?_
        rintro i _ c' d' rfl t
        refine .get ?_
        rw [← t.entry]
        cases (c'.entry i).outputs with
        | nil => exact .throw (.refl _) t
        | cons output more =>
          dsimp only
          rw [r.shape]
          exact .modify_bind (agree_declare _ _ (t.required .cacheIndex))
      · exact .refuse (r.toRenamed.atNode fun _ => rfl) t
    all_goals exact .throw (.refl _) t

end

/-! ## nodes -/

theorem strip_cases {a b : Op} (h : b.strip = a.strip) :
    b = a ∨ (∃ v v' : Value, a = .constant v ∧ b = .constant v' ∧ v'.shape = v.shape) ∨
      (∃ name s x y, a = .inject name s x ∧ b = .inject name s y) ∨
      ∃ x y s, a = .ref x s ∧ b = .ref y s := by
  unfold Op.strip at h
  split at h <;> split at h <;> grind

section
variable (step : VisitsAgree V S φ o o' visit visit') (r : Counterparts V S φ o o' n m)
include step r

theorem agree_ref {x y : String} {s : Shape} (op : n.op = .ref x s) (op' : m.op = .ref y s)
    (t : Twins V φ o o' c d) : AgreeUpTo V φ o o' (emitOp visit n) c (emitOp visit' m) d := by
  unfold emitOp
  rw [op, op', r.inputs]
  have sources := r.sources
  have name (h : V) : x = y := by
    have same := r.same h
    rw [op, op'] at same
    cases same
    rfl
  generalize n.inputs = inputs at sources ⊢
  rcases inputs with _ | ⟨_ | w, ws⟩
  · exact .refuse (r.toRenamed.atNode fun h => by rw [name h]) t
  · exact .refuse (r.toRenamed.atNode fun h => by rw [name h]) t
  · refine .bind (step w.source (sources w (.head _)) c d t) ?_
    rintro a _ c' d' rfl t
    have shape : (w.renamed φ).shape = w.shape := rfl
    rw [shape]
    split
    · exact .pure rfl t
    · exact .refuse (r.toRenamed.shapeAt fun h => by rw [name h]) t

theorem agree_cast {target : Shape} (op : n.op = .cast target) (op' : m.op = .cast target)
    (t : Twins V φ o o' c d) : AgreeUpTo V φ o o' (emitOp visit n) c (emitOp visit' m) d := by
  unfold emitOp
  rw [op, op']
  refine .bind (agree_emitInputs step r t) ?_
  rintro ss _ c' d' rfl t
  simp only [r.term, r.shape, r.inputShape]
  split
  · split
    · exact .pure rfl t
    · exact agree_declare _ _ t
  · exact .throw (.refl _) t

theorem agree_distance {metric : Metric} (op : n.op = .distance metric)
    (op' : m.op = .distance metric) (t : Twins V φ o o' c d) :
    AgreeUpTo V φ o o' (emitOp visit n) c (emitOp visit' m) d := by
  unfold emitOp
  rw [op, op']
  refine .bind (agree_emitInputs step r t) ?_
  rintro ss _ c' d' rfl t
  simp only [r.shape, r.inputShape]
  split
  · refine .bind (agree_declare _ _ t) ?_
    rintro delta _ c' d' rfl t
    exact agree_declare _ _ t
  · exact .throw (.refl _) t

theorem agree_template (routine : Routine) (stem : String) (x : Template) (t : Twins V φ o o' c d) :
    AgreeUpTo V φ o o'
      (require routine >>= fun _ => emitNested visit ⟨nestedKey n, stem, .float⟩ n.inputs
        (templateBody x)) c
      (require routine >>= fun _ => emitNested visit' ⟨nestedKey m, stem, .float⟩ m.inputs
        (templateBody x)) d := by
  have key : nestedKey m = nestedKey n := by rw [← nestedKey_bare m, r.bare, nestedKey_bare]
  rw [key]
  exact .modify_bind (agree_emitNested step r _ x (t.required routine))

end

section
variable (step : VisitsAgree V S φ o o' visit visit')
  (position : φ Graph.positionId = Graph.positionId)
  (r : Counterparts V S φ o o' n m) (t : Twins V φ o o' c d)
include step position r t

theorem agree_emitOp : AgreeUpTo V φ o o' (emitOp visit n) c (emitOp visit' m) d := by
  rcases strip_cases r.op with same | ⟨v, v', op, op', shape⟩ | ⟨name, s, x, y, op, op'⟩ |
    ⟨x, y, s, op, op'⟩
  · have (op : Op) (h : n.op = op) : m.op = op := same.trans h
    cases op : n.op
    case ref name s => exact agree_ref step r op (this _ op) t
    case cast target => exact agree_cast step r op (this _ op) t
    case distance metric => exact agree_distance step r op (this _ op) t
    all_goals
      unfold emitOp
      rw [this _ op, op]
    case unsupported literal reason =>
      exact .refuse (r.toRenamed.atNode fun _ => rfl) t
    case position =>
      refine .get ?_
      dsimp only
      rw [← t.hasPosition, Context.currentScope, Context.currentScope, ← t.scopeName, ← t.current]
      split
      · exact .pure rfl t
      · exact .refuse (r.toRenamed.atNode fun _ => rfl) t
    case constant v => exact agree_emitConstant r rfl (fun _ => rfl) t
    case inject name s fallback =>
      exact agree_emitInject name s (r.bound op (this _ op)) (fun h => by rw [r.bindings h]) t
    case fractal kind octaves =>
      refine .bind (agree_emitInputs step r t) ?_
      rintro ss _ c' d' rfl t
      dsimp only
      rw [r.inputShape]
      split
      · exact .refuse_bind (.refl _) t
      · exact agree_template step r _ _ _ t
    case cellular metric feature =>
      refine .bind (agree_emitInputs step r t) ?_
      rintro ss _ c' d' rfl t
      dsimp only
      rw [r.inputShape]
      exact agree_template step r _ _ _ t
    case cache reduction => exact agree_emitCache step position r reduction t
    all_goals
      refine .bind (agree_emitInputs step r t) ?_
      rintro ss _ c' d' rfl t
      rw [r.termRoutines, r.term, r.shape]
      refine .bind (Q := Eq) (.of_ok (outcome_forM_require _ c') (outcome_forM_require _ d') rfl
        (t.requiredAll _)) ?_
      rintro u _ c' d' rfl t
      exact agree_declare _ _ t
  · unfold emitOp
    rw [op, op']
    refine agree_emitConstant r shape (fun h => ?_) t
    have same := r.same h
    rw [op, op'] at same
    exact Op.constant.inj same
  · unfold emitOp
    rw [op, op']
    refine agree_emitInject name s (r.bound op op') (fun h => ?_) t
    have same := r.same h
    rw [op, op'] at same
    cases same
    rw [r.bindings h]
  · exact agree_ref step r op op' t

theorem agree_emitNode : AgreeUpTo V φ o o' (emitNode visit n) c (emitNode visit' m) d := by
  have bytes : m.structureBytes = n.structureBytes := by
    rw [← structureBytes_bare m, r.bare, structureBytes_bare]
  have complete : m.structureComplete = n.structureComplete := by
    rw [← structureComplete_bare m, r.bare, structureComplete_bare]
  unfold emitNode
  refine .get ?_
  dsimp only
  rw [r.id, t.lookup_symbol, ← t.current, bytes, complete]
  cases c.currentScope.symbols.lookup n.id with
  | some s =>
    dsimp only
    exact .modify_bind (.pure rfl (t.fold _))
  | none =>
    refine .modify_bind ?_
    split
    · refine .bind (agree_emitOp step position r (t.fold _)) ?_
      rintro s _ c' d' rfl t'
      exact .modify_bind (.pure rfl (t'.remembered _ rfl rfl))
    · exact .throw (.refl _) (t.fold _)

end

/-- graphs that are the same up to a renumbering, as far as the nodes in `S` are concerned -/
structure Covers (V : Prop) (S : NodeId → Prop) (φ : NodeId → NodeId) (o o' : Options)
    (g h : Graph) : Prop where
  position : φ Graph.positionId = Graph.positionId
  nodes : ∀ id, S id → Option.Rel (Counterparts V S φ o o') (g.get? id) (h.get? (φ id))
  own : ∀ {id n}, S id → g.get? id = some n → S n.id

section
variable {g h : Graph}

section
variable (r : Graph.Renamed φ o o' g h)
include r

theorem covers_of_renamed :
    Covers False (fun _ => True) φ o o' g h where
  position := r.position
  nodes id _ := by
    have related := r.nodes id
    generalize g.get? id = x at related
    generalize h.get? (φ id) = y at related
    cases related with
    | none => exact .none
    | some node => exact .some ⟨node, fun _ _ => trivial, False.elim, False.elim⟩
  own _ _ := trivial

theorem agree_emitWithin (fuel : Nat) :
    VisitsAgree False (fun _ => True) φ o o' (emitWithin g fuel) (emitWithin h fuel) := by
  induction fuel with
  | zero =>
    intro id _ c d t
    exact .throw (.refl _) t
  | succ fuel ih =>
    intro id all c d t
    have related := (covers_of_renamed r).nodes id all
    unfold emitWithin
    generalize g.get? id = x at related
    generalize h.get? (φ id) = y at related
    cases related with
    | none => exact .refuse (.refl _) t
    | some node => exact agree_emitNode ih r.position node t

theorem agree_emit :
    VisitsAgree False (fun _ => True) φ o o' (emit g) (emit h) := by
  unfold emit
  rw [r.size]
  exact agree_emitWithin r _

end

/-! ## outputs -/

section
variable (r : Covers V S φ o o' g h) (visits : VisitsAgree V S φ o o' (emit g) (emit h))
include r visits

theorem agree_emitRoot
    {root : Root} (inside : ∀ id, root.node = some id → S id) (t : Twins V φ o o' c d) :
    AgreeUpTo V φ o o' (emitRoot g 0 root) c (emitRoot h 0 (root.renamed φ)) d := by
  unfold emitRoot Root.renamed
  cases node : root.node with
  | none => exact .throw (.refl _) t
  | some id =>
    have related := r.nodes id (inside id node)
    have own := @Covers.own _ _ _ _ _ _ _ r id
    dsimp only [Option.map_some, Option.bind_some]
    generalize g.get? id = x at related own
    generalize h.get? (φ id) = y at related
    cases related with
    | none => exact .throw (.refl _) t
    | some node' =>
      dsimp only
      rw [node'.shape, node'.id]
      refine .modify_bind (.bind (visits _ (own (inside id node) rfl) _ _ (t.fold _)) ?_)
      rintro s _ c' d' rfl t'
      exact .of_ok rfl rfl rfl (t'.rooted rfl _ rfl)

theorem agree_roots {roots : List Root} (inside : ∀ root ∈ roots, ∀ id, root.node = some id → S id)
    (t : Twins V φ o o' c d) :
    AgreeUpTo V φ o o' (roots.forM (emitRoot g 0)) c
      ((roots.map (Root.renamed φ)).forM (emitRoot h 0)) d := by
  induction roots generalizing c d with
  | nil => exact .pure rfl t
  | cons root roots ih =>
    refine .bind (agree_emitRoot r visits (inside root (.head _)) t) ?_
    rintro u _ c' d' rfl t
    exact ih (fun root there => inside root (.tail _ there)) t

end

end

end

end Terrain.Compile

namespace Terrain

open Compile Validate List

variable {V : Prop} {S : NodeId → Prop} {roots : List Root}

/-! ## validation -/

/-- both accepted with related answers, or both refused for one reason -/
def SameVerdict {α β : Type} (V : Prop) (Q : α → β → Prop) :
    Except CompileError α → Except CompileError β → Prop
  | .ok a, .ok b => Q a b
  | .error e, .error e' => Failure.Alike V (.refused e) (.refused e')
  | _, _ => False

theorem SameVerdict.cases {α β : Type} {Q : α → β → Prop} {x : Except CompileError α}
    {y : Except CompileError β} (h : SameVerdict V Q x y) :
    (∃ e e', x = .error e ∧ y = .error e' ∧ Failure.Alike V (.refused e) (.refused e')) ∨
      ∃ a b, x = .ok a ∧ y = .ok b ∧ Q a b := by
  cases x with
  | error e =>
    cases y with
    | error e' => exact .inl ⟨e, e', rfl, rfl, h⟩
    | ok b => exact h.elim
  | ok a =>
    cases y with
    | error e' => exact h.elim
    | ok b => exact .inr ⟨a, b, rfl, rfl, h⟩

section
variable {φ : Equiv.Perm NodeId} {o o' : Options} {g h : Graph} {n m : Node}

/-- the nodes found sound, renumbered -/
def SameDone (φ : NodeId → NodeId) (done done' : List NodeId) : Prop := done' = done.map φ

theorem nodeFault_counterparts (r : Counterparts V S φ o o' n m) :
    (nodeFault m).isSome = (nodeFault n).isSome ∧ (V → nodeFault m = nodeFault n) := by
  have empty : m.inputs.isEmpty = n.inputs.isEmpty := by rw [r.inputs, isEmpty_map]
  unfold nodeFault
  constructor
  · rcases strip_cases r.op with same | ⟨v, v', op, op', -⟩ | ⟨name, s, x, y, op, op'⟩ |
      ⟨x, y, s, op, op'⟩
    · rw [same, empty]
    · rw [op, op']
    · rw [op, op']
    · rw [op, op', empty]
      dsimp only
      split <;> rfl
  · intro h
    rw [r.same h, empty]

theorem walkInputs_renamed {walk walk' : NodeId → List NodeId → Except CompileError (List NodeId)}
    (step : ∀ id, S id → ∀ done, SameVerdict V (SameDone φ) (walk id done)
      (walk' (φ id) (done.map φ)))
    (r : Node.Renamed φ o o' n m) (i : Nat) {ws : List (Option Wire)}
    (sources : ∀ w, some w ∈ ws → S w.source)
    (done : List NodeId) :
    SameVerdict V (SameDone φ) (walkInputs walk n i ws done)
      (walkInputs walk' m i (ws.map (·.map (Wire.renamed φ))) (done.map φ)) := by
  induction ws generalizing i done with
  | nil => exact rfl
  | cons w ws ih =>
    cases w with
    | none => exact r.atNode fun _ => rfl
    | some w =>
      have source : (w.renamed φ).source = φ w.source := rfl
      simp only [map_cons, Option.map_some, walkInputs, source]
      rcases (step w.source (sources w (.head _)) done).cases with
        ⟨e, e', left, right, kind⟩ | ⟨mid, _, left, right, rfl⟩
      · rw [left, right]
        exact kind
      · rw [left, right]
        exact ih (i + 1) (fun w there => sources w (.tail _ there)) mid

theorem any_id_renamed {path path' : List Node}
    (along : path'.map Node.id = (path.map Node.id).map φ) (x : NodeId) :
    path'.any (·.id == φ x) = path.any (·.id == x) := by
  have through (p : List Node) (y : NodeId) : p.any (·.id == y) = (p.map Node.id).any (· == y) := by
    rw [any_map]
    rfl
  rw [through, along, through, any_map]
  congr 1
  funext y
  simp

theorem walk_counterparts {path path' : List Node}
    (along : path'.map Node.id = (path.map Node.id).map φ) {id : NodeId} {done : List NodeId}
    {fuel fuel' : Nat} (related : Option.Rel (Counterparts V S φ o o') (g.get? id) (h.get? (φ id)))
    (step : ∀ n m, m.id = φ n.id → ∀ id, S id → ∀ done, SameVerdict V (SameDone φ)
      (walk g fuel (n :: path) id done) (walk h fuel' (m :: path') (φ id) (done.map φ))) :
    SameVerdict V (SameDone φ) (walk g (fuel + 1) path id done)
      (walk h (fuel' + 1) path' (φ id) (done.map φ)) := by
  have known : (done.map φ).contains (φ id) = done.contains id := by
    rw [Bool.eq_iff_iff]
    simp
  unfold walk
  generalize g.get? id = x at related
  generalize h.get? (φ id) = y at related
  cases related with
  | none => exact rfl
  | @some n m node =>
    dsimp only
    rw [any_id_renamed along, known]
    split
    · exact node.toRenamed.atNode fun _ => rfl
    split
    · exact rfl
    obtain ⟨faults, same⟩ := nodeFault_counterparts node
    cases fault : nodeFault n with
    | some f =>
      obtain ⟨f', fault'⟩ := Option.isSome_iff_exists.1 (faults.trans (by rw [fault]; rfl))
      rw [fault, fault'] at same
      rw [fault']
      exact node.toRenamed.atNode fun h => by rw [Option.some.inj (same h)]
    | none =>
      have fault' : nodeFault m = none := by simpa [fault] using faults
      rw [fault', node.inputs]
      have inputs := walkInputs_renamed (step n m node.id) node.toRenamed 0 node.sources done
      dsimp only
      rcases inputs.cases with ⟨e, e', left, right, kind⟩ | ⟨mid, _, left, right, rfl⟩
      · rw [left, right]
        exact kind
      · rw [left, right]
        exact rfl

theorem walk_renamed (r : Graph.Renamed φ o o' g h) (fuel : Nat) (path path' : List Node)
    (along : path'.map Node.id = (path.map Node.id).map φ) (id : NodeId) (done : List NodeId) :
    SameVerdict False (SameDone φ) (walk g fuel path id done)
      (walk h fuel path' (φ id) (done.map φ)) := by
  induction fuel generalizing path path' id done with
  | zero => exact rfl
  | succ fuel ih =>
    refine walk_counterparts along ((covers_of_renamed r).nodes id trivial)
      fun n m own id _ done => ?_
    exact ih (n :: path) (m :: path') (by simp [along, own]) id done

theorem checkTargetShape_renamed (r : Node.Renamed φ o o' n m) (root : Root) :
    SameVerdict V Eq (checkTargetShape root n) (checkTargetShape (root.renamed φ) m) := by
  unfold checkTargetShape
  have target : (root.renamed φ).target = root.target := rfl
  rw [target, r.shape]
  cases targetShape? root.target with
  | none => exact rfl
  | some want =>
    dsimp only
    split
    · exact r.shapeAt fun _ => rfl
    · exact rfl

theorem walkRoots_covers (r : Covers V S φ o o' g h)
    (walks : ∀ id, S id → ∀ done, SameVerdict V (SameDone φ) (walk g (g.size + 1) [] id done)
      (walk h (h.size + 1) [] (φ id) (done.map φ)))
    (inside : ∀ root ∈ roots, ∀ id, root.node = some id → S id)
    (done : List NodeId) :
    SameVerdict V Eq (walkRoots g roots done)
      (walkRoots h (roots.map (Root.renamed φ)) (done.map φ)) := by
  induction roots generalizing done with
  | nil => exact rfl
  | cons root roots ih =>
    have ih := ih fun root there => inside root (.tail _ there)
    rw [map_cons]
    unfold walkRoots
    have node : (root.renamed φ).node = root.node.map φ := rfl
    rw [node]
    cases at_ : root.node with
    | none => exact ih done
    | some id =>
      have there := inside root (.head _) id at_
      have related := r.nodes id there
      have own := @Covers.own _ _ _ _ _ _ _ r id
      dsimp only [Option.map_some, Option.bind_some]
      generalize g.get? id = x at related own
      generalize h.get? (φ id) = y at related
      cases related with
      | none => exact ih done
      | @some n m node =>
        dsimp only
        rw [node.id]
        rcases (walks n.id (own there rfl) done).cases with
          ⟨e, e', left, right, kind⟩ | ⟨mid, _, left, right, rfl⟩
        · rw [left, right]
          exact kind
        rw [left, right]
        rcases (checkTargetShape_renamed node.toRenamed root).cases with
          ⟨e, e', left, right, kind⟩ | ⟨u, _, left, right, rfl⟩
        · rw [left, right]
          exact kind
        · rw [left, right]
          exact ih mid

theorem checkTargets_renamed (seen : List String) (roots : List Root) :
    checkTargets seen (roots.map (Root.renamed φ)) = checkTargets seen roots := by
  induction roots generalizing seen with
  | nil => rfl
  | cons root roots ih =>
    have unbound : (root.renamed φ).node.isNone = root.node.isNone := by simp [Root.renamed]
    have target : (root.renamed φ).target = root.target := rfl
    rw [map_cons]
    unfold checkTargets
    rw [unbound, target, ih]

/-- outputs are accepted, or refused for one kind of reason, whatever the numbers of nodes are -/
theorem validate_covers (r : Covers V S φ o o' g h)
    (walks : ∀ id, S id → ∀ done, SameVerdict V (SameDone φ) (walk g (g.size + 1) [] id done)
      (walk h (h.size + 1) [] (φ id) (done.map φ)))
    (inside : ∀ root ∈ roots, ∀ id, root.node = some id → S id)
    {required required' : List String} (same : ∀ seen, checkTargets [] roots = .ok seen →
      checkRequired seen required = checkRequired seen required') :
    SameVerdict V Eq (g.validate roots required)
      (h.validate (roots.map (Root.renamed φ)) required') := by
  unfold Graph.validate
  rw [checkTargets_renamed]
  cases seen : checkTargets [] roots with
  | error e => exact .refl _
  | ok names =>
    show SameVerdict V Eq (checkRequired names required >>= fun _ => walkRoots g roots [])
      (checkRequired names required' >>= fun _ => walkRoots h (roots.map (Root.renamed φ)) [])
    rw [← same names seen]
    cases checkRequired names required with
    | error e => exact .refl _
    | ok u => exact walkRoots_covers r walks inside []

theorem validate_renamed (r : Graph.Renamed φ o o' g h) (roots : List Root)
    (required : List String) : SameVerdict False Eq (g.validate roots required)
      (h.validate (roots.map (Root.renamed φ)) required) := by
  refine validate_covers (covers_of_renamed r) (fun id _ done => ?_)
    (fun _ _ _ _ => trivial) fun _ _ => rfl
  rw [← r.size]
  exact walk_renamed r _ [] [] rfl id done

/-! ## whole compilations -/

section
variable (r : Covers V S φ o o' g h) (visits : VisitsAgree V S φ o o' (emit g) (emit h))
  (workgroup : o'.workgroup = o.workgroup)
  (inside : ∀ root ∈ roots, ∀ id, root.node = some id → S id)
  (validated : SameVerdict V Eq (g.validate roots o.requiredOutputs)
    (h.validate (roots.map (Root.renamed φ)) o'.requiredOutputs))
include r visits workgroup inside validated

theorem agree_emitRoots :
    AgreeUpTo V φ o o' (emitRoots g roots) { Context.new o with phase := .parsing }
      (emitRoots h (roots.map (Root.renamed φ))) { Context.new o' with phase := .parsing } := by
  have t : Twins V φ o o' { Context.new o with phase := .parsing }
      { Context.new o' with phase := .parsing } :=
    (Twins.new r.position workgroup).withPhase .parsing
  have size := workgroupSize_congr workgroup
  unfold emitRoots
  refine .get ?_
  dsimp only [Context.new]
  by_cases large : Options.maxWorkgroup < o.workgroupSize
  · rw [if_pos large, if_pos (size ▸ large), size]
    exact .refuse_bind (.refl _) t
  rw [if_neg large, if_neg (size ▸ large)]
  rcases validated.cases with ⟨e, e', left, right, kind⟩ | ⟨u, _, left, right, rfl⟩
  · rw [left, right]
    exact ⟨kind, t⟩
  rw [left, right]
  have started : Twins V φ o o' (Context.opened o) (Context.opened o') :=
    Twins.opened r.position workgroup
  have generated : AgreeUpTo V φ o o'
      (roots.forM (emitRoot g 0) >>= fun _ => popScope >>= fun _ => get >>= fun c =>
        if c.stack.length ≠ 0 then refuse (.openScopes c.stack.length) else pure ())
      (Context.opened o)
      ((roots.map (Root.renamed φ)).forM (emitRoot h 0) >>= fun _ => popScope >>= fun _ =>
        get >>= fun c =>
          if c.stack.length ≠ 0 then refuse (.openScopes c.stack.length) else pure ())
      (Context.opened o') := by
    refine .bind (agree_roots r visits inside started) ?_
    rintro u _ c d rfl t
    refine .modify_bind (.get ?_)
    rw [← t.popped.stack]
    split
    · exact .refuse (.refl _) t.popped
    · exact .pure rfl t.popped
  exact generated

theorem agree_parse_covers : AgreeUpTo V φ o o' (parse g roots) (Context.new o)
      (parse h (roots.map (Root.renamed φ))) (Context.new o') := by
  have parsed : AgreeUpTo V φ o o'
      (onRefusal (emitRoots g roots) (setPhase .failed) >>= fun _ =>
        modify arrange >>= fun _ => setPhase .sorted) { Context.new o with phase := .parsing }
      (onRefusal (emitRoots h (roots.map (Root.renamed φ))) (setPhase .failed) >>= fun _ =>
        modify arrange >>= fun _ => setPhase .sorted)
      { Context.new o' with phase := .parsing } := by
    refine .bind (.onRefusal (fun e f => ⟨fun h => h.1, fun h => h.1⟩)
      (agree_emitRoots r visits workgroup inside validated) fun c d t => t.withPhase .failed) ?_
    rintro u _ c d rfl t
    exact .of_ok rfl rfl rfl (t.arrange.withPhase .sorted)
  exact parsed

end

theorem agree_parse (r : Graph.Renamed φ o o' g h) (required : o'.required = o.required)
    (workgroup : o'.workgroup = o.workgroup) (roots : List Root) :
    Agree SameKind (Twins False φ o o') Eq (parse g roots) (Context.new o)
      (parse h (roots.map (Root.renamed φ))) (Context.new o') := by
  have outputs : o'.requiredOutputs = o.requiredOutputs := by
    unfold Options.requiredOutputs
    rw [required]
  have validated : SameVerdict False Eq (g.validate roots o.requiredOutputs)
      (h.validate (roots.map (Root.renamed φ)) o'.requiredOutputs) := by
    rw [outputs]
    exact validate_renamed r roots o.requiredOutputs
  exact (agree_parse_covers (covers_of_renamed r) (agree_emit r) workgroup (fun _ _ _ _ => trivial)
    validated).mono fun _ _ alike => alike.1

/-- **Numbers and values never reach a program.**  Graphs that are the same up to a renumbering of
their nodes, the values of constants, the fallbacks of parameters and the bindings both compile, to
programs that differ in the values of parameters only, or both fail in the same way. -/
theorem compile_renamed (r : Graph.Renamed φ o o' g h) (required : o'.required = o.required)
    (workgroup : o'.workgroup = o.workgroup) (roots : List Root) :
    match g.compile roots o, h.compile (roots.map (Root.renamed φ)) o' with
    | .ok p, .ok q => p.SameStructure q
    | .error e, .error e' => SameKind e e'
    | _, _ => False := by
  have parsed := agree_parse r required workgroup roots
  rw [compile_eq, compile_eq]
  unfold Graph.parsed
  unfold Agree at parsed
  generalize outcome (parse g roots) (Context.new o) = x at parsed
  generalize outcome (parse h (roots.map (Root.renamed φ))) (Context.new o') = y at parsed
  obtain ⟨x, c⟩ := x
  obtain ⟨y, d⟩ := y
  cases x with
  | error e =>
    cases y with
    | error e' => exact parsed.1
    | ok v => exact parsed.elim
  | ok u =>
    cases y with
    | error e' => exact parsed.elim
    | ok v => exact sameStructure_of_view parsed.2.view Kernel.keepsText_id parsed.2.layout

end

/-- a constant and a parameter, added -/
def scaledLeft : Graph :=
  ⟨#[⟨1, .position, []⟩, ⟨2, .constant (.scalar .one), []⟩,
    ⟨3, .inject "scale" .float (some (.scalar .one)), []⟩,
    ⟨4, .binary .add, [some ⟨2, .float⟩, some ⟨3, .float⟩]⟩]⟩

/-- the same made in another order, with another constant and no fallback -/
def scaledRight : Graph :=
  ⟨#[⟨1, .position, []⟩, ⟨2, .inject "scale" .float none, []⟩,
    ⟨3, .constant (.scalar .zero), []⟩,
    ⟨4, .binary .add, [some ⟨3, .float⟩, some ⟨2, .float⟩]⟩]⟩

def unboundOptions : Options := ⟨[], some [], 0⟩

def boundOptions : Options := ⟨[("scale", .scalar .zero)], some [], 0⟩

theorem scaled_renamed :
    Graph.Renamed (Equiv.swap 2 3) unboundOptions boundOptions scaledLeft scaledRight where
  position := by decide
  nodes := by
    intro id
    match id with
    | 0 => exact .none
    | 1 => exact .some ⟨by decide, rfl, rfl, by intro _ _ _ _ h; cases h⟩
    | 2 => exact .some ⟨by decide, rfl, rfl, by intro _ _ _ _ h; cases h⟩
    | 3 => exact .some ⟨by decide, rfl, rfl, by intro _ _ _ _ h h'; cases h; cases h'; decide⟩
    | 4 => exact .some ⟨by decide, rfl, by decide, by intro _ _ _ _ h; cases h⟩
    | k + 5 =>
      have other (k i : Nat) (small : i < 5) : k + 5 ≠ i := by omega
      rw [Equiv.swap_apply_of_ne_of_ne (other k 2 (by decide)) (other k 3 (by decide))]
      exact .none

theorem compile_renamed_scaled :
    (scaledLeft.compile [⟨"density", some 4⟩] unboundOptions).isOk = true ∧
      match scaledLeft.compile [⟨"density", some 4⟩] unboundOptions,
        scaledRight.compile [⟨"density", some 4⟩] boundOptions with
      | .ok p, .ok q => p.SameStructure q
      | .error e, .error e' => SameKind e e'
      | _, _ => False :=
  ⟨by decide +kernel, compile_renamed scaled_renamed rfl rfl [⟨"density", some 4⟩]⟩

end Terrain
