import Terrain.Proofs.Accepts
import Terrain.Proofs.Schedule

/-!
# Invariants of generation

What holds of all generated functions is shown for each rule on its own.  An invariant has two
parts: a fact about contexts, and a fact about every symbol that the function of a dispatch
remembers for a node.  `Preserved` says what each rule has to keep of them; the induction over a
generation, which goes in and out of functions, is done here once.

* `Idle`              changes that touch neither lines nor tables;
* `Silent`            changes that store nothing in what was there, as a generation does not;
* `Held`              an invariant at one context;
* `Preserved`         what the rules keep;
* `emit_held`         a generation keeps it, and it holds of the symbol that is returned;
* `RootsRan.held`     so do the outputs of a graph, one after the other;
* `parsed_holds`      it holds of the context that a compilation leaves.
-/

namespace Terrain.Kernel

/-- the output argument that a line stores to -/
def Line.stores : Line → Option String
  | .store output _ => some output
  | _ => none

end Terrain.Kernel

namespace Terrain.Compile

open Kernel Hash List

variable {J : Context → Prop} {roots : List Root}
variable {s : Symbol} {w : Wire}

/-! ## idle changes -/

/-- a function without what changes while its lines stay -/
def Scope.core (s : Scope) : Scope := { s with depth := 0, bound := 0, symbols := [] }

structure Idle (c c' : Context) : Prop where
  options : c'.options = c.options
  names : c'.names = c.names
  scopes : c'.scopes.size = c.scopes.size
  core : ∀ i < c.scopes.size, (c'.scope i).core = (c.scope i).core
  entries : c'.entries = c.entries
  nested : c'.nested = c.nested
  caches : c'.caches = c.caches
  buffers : c'.buffers = c.buffers
  parameters : c'.parameters = c.parameters
  constantSlots : c'.constantSlots = c.constantSlots
  injectedSlots : c'.injectedSlots = c.injectedSlots
  routines : c.routines <+: c'.routines

section
variable {c c' : Context}

section
variable (h : Idle c c') (i : ScopeId)
include h

theorem Idle.scope : (c'.scope i).core = (c.scope i).core := by
  by_cases inside : i < c.scopes.size
  · exact h.core i inside
  · -- outside of the table there is one default
    unfold Context.scope
    rw [Array.getD_eq_getD_getElem?, Array.getD_eq_getD_getElem?,
      Array.getElem?_eq_none (not_lt.1 inside),
      Array.getElem?_eq_none (h.scopes ▸ not_lt.1 inside)]

theorem Idle.lines : (c'.scope i).lines = (c.scope i).lines := by
  have same := congrArg Scope.lines (h.scope i)
  exact same

theorem Idle.args : (c'.scope i).args = (c.scope i).args := by
  have same := congrArg Scope.args (h.scope i)
  exact same

theorem Idle.name : (c'.scope i).name = (c.scope i).name := by
  have same := congrArg Scope.name (h.scope i)
  exact same

theorem Idle.placed : (c'.scope i).hasPosition = (c.scope i).hasPosition := by
  have same := congrArg Scope.hasPosition (h.scope i)
  exact same

end

theorem Idle.entry (h : Idle c c') (d : DispatchId) : c'.entry d = c.entry d := by
  unfold Context.entry
  rw [h.entries]

theorem Idle.refl (c : Context) : Idle c c :=
  ⟨rfl, rfl, rfl, fun _ _ => rfl, rfl, rfl, rfl, rfl, rfl, rfl, rfl, prefix_rfl⟩

theorem idle_modifyScope (c : Context) (i : ScopeId) (f : Scope → Scope)
    (h : ∀ s, (f s).core = s.core) : Idle c (c.modifyScope i f) :=
  { Idle.refl c with
    scopes := size_modifyScope c i f
    core := fun j inside => by
      rw [scope_modifyScope c i j f inside]
      split
      · exact h _
      · rfl }

variable (c)

theorem idle_fold (token : List UInt8) : Idle c (c.fold token) := { Idle.refl c with }

theorem idle_requiredAll (rs : List Routine) : Idle c (c.requiredAll rs) := by
  induction rs generalizing c with
  | nil => exact .refl c
  | cons r rs ih =>
    have rest := ih (c.required r)
    exact { rest with routines := (kernelLibrary.prefix_require c.routines r).trans rest.routines }

theorem mem_requiredAll (rs : List Routine) : ∀ r ∈ rs, r ∈ (c.requiredAll rs).routines := by
  induction rs generalizing c with
  | nil => nofun
  | cons r rs ih =>
    refine forall_mem_cons.2 ⟨?_, ih (c.required r)⟩
    exact (idle_requiredAll (c.required r) rs).routines.subset
      (kernelLibrary.mem_require c.routines r)

theorem idle_remembered (i : ScopeId) (node : NodeId) (s : Symbol) :
    Idle c (c.remembered i node s) := idle_modifyScope c i _ fun _ => rfl

theorem idle_deepened (i : ScopeId) (depth : Int) : Idle c (c.deepened i depth) :=
  idle_modifyScope c i _ fun s => by split <;> rfl

theorem idle_finished : Idle c c.finished := { Idle.refl c with }

variable {c}

/-! ## silent changes -/

/-- a function has the arguments it had and no more stores -/
structure ScopeSilent (s s' : Scope) : Prop where
  args : s'.args = s.args
  lines : ∃ more, s'.lines.toList = s.lines.toList ++ more ∧ ∀ l ∈ more, l.line.stores = none

structure Silent (c c' : Context) : Prop where
  scopes : c.scopes.size ≤ c'.scopes.size
  scope : ∀ i < c.scopes.size, ScopeSilent (c.scope i) (c'.scope i)
  entries : c.entries.size ≤ c'.entries.size
  outputs : ∀ d < c.entries.size, (c'.entry d).outputs = (c.entry d).outputs

theorem Silent.trans {d : Context} (h : Silent c c') (h' : Silent c' d) : Silent c d where
  scopes := h.scopes.trans h'.scopes
  scope i inside := by
    obtain ⟨args, more, lines, none⟩ := h.scope i inside
    obtain ⟨args', more', lines', none'⟩ := h'.scope i (inside.trans_le h.scopes)
    exact ⟨args'.trans args, more ++ more', by rw [lines', lines, append_assoc],
      forall_mem_append.2 ⟨none, none'⟩⟩
  entries := h.entries.trans h'.entries
  outputs i inside :=
    (h'.outputs i (inside.trans_le h.entries)).trans (h.outputs i inside)

theorem ScopeSilent.of_eq {s s' : Scope} (h : s' = s) : ScopeSilent s s' :=
  ⟨by rw [h], [], by rw [h, append_nil], by simp⟩

theorem Idle.silent (h : Idle c c') : Silent c c' where
  scopes := h.scopes.symm.le
  scope i _ := ⟨h.args i, [], by rw [h.lines i, append_nil], by simp⟩
  entries := Nat.le_of_eq (by rw [h.entries])
  outputs d _ := by rw [h.entry]

section
variable (c)

theorem Silent.refl : Silent c c := (Idle.refl c).silent

theorem silent_modifyScope (i : ScopeId) (f : Scope → Scope) (args : ∀ s, (f s).args = s.args)
    (lines : ∀ s : Scope, ∃ more, (f s).lines.toList = s.lines.toList ++ more ∧
      ∀ l ∈ more, l.line.stores = none) : Silent c (c.modifyScope i f) :=
  { Silent.refl c with
    scopes := le_of_eq (size_modifyScope c i f).symm
    scope := fun j inside => by
      rw [scope_modifyScope c i j f inside]
      split
      · exact ⟨args _, lines _⟩
      · exact .of_eq rfl }

theorem silent_declared (shape : Shape) (e : Expr) : Silent c (c.declared shape e) := by
  have step := silent_modifyScope { c with names := c.names + 1 } c.current
    (fun s => { s.push ⟨0, .bind (.bound (c.names + 1)) shape e⟩ with bound := s.bound + 1 })
    (fun _ => rfl) fun s =>
      ⟨[⟨0, .bind (.bound (c.names + 1)) shape e⟩], by simp [Scope.push], by simp [Line.stores]⟩
  exact { step with }

theorem silent_called (function : String) (shape : Shape) (args : List Symbol) :
    Silent c (c.called function shape args) := by
  have step := silent_modifyScope { c with names := c.names + 1 } c.current
    (fun s => { (s.push ⟨0, .declare (.result (c.names + 1)) shape⟩).push
      ⟨0, .call function args (.result (c.names + 1))⟩ with bound := s.bound + 1 })
    (fun _ => rfl) fun s => ⟨[⟨0, .declare (.result (c.names + 1)) shape⟩,
      ⟨0, .call function args (.result (c.names + 1))⟩], by simp [Scope.push], by
        simp [Line.stores]⟩
  exact { step with }

theorem silent_pushScope (s : Scope) : Silent c { c with scopes := c.scopes.push s } :=
  { Silent.refl c with
    scopes := by simp
    scope := fun i inside => .of_eq (by rw [scope_push, if_neg (inside.ne)]) }

theorem silent_readAgain (reader id : DispatchId) : Silent c (c.readAgain reader id) where
  scopes := Nat.le_of_eq (by rw [readAgain_frame])
  scope i _ := .of_eq (scope_readAgain c reader id i)
  entries := le_of_eq (size_readAgain c reader id).symm
  outputs d inside := by
    obtain ⟨k, entry⟩ := entry_readAgain c reader id inside
    rw [entry]

theorem silent_cacheOpened (n : Node) (reader : DispatchId) (reduction : Int) :
    Silent c (c.cacheOpened n reader reduction) where
  scopes := by simp [Context.cacheOpened]
  scope i inside := .of_eq (scope_cacheOpened_of_lt n reader reduction inside)
  entries := by rw [size_cacheOpened]; exact Nat.le_succ _
  outputs d inside := by rw [entry_cacheOpened_of_lt n reader reduction inside]

theorem entry_cacheClosed (id : DispatchId) (name : String) (shape : Shape) (s : Symbol)
    {d : DispatchId} (inside : d < c.entries.size) :
    (c.cacheClosed id name shape s).entry d = { c.entry d with
      outputs := if id = d then (c.entry d).outputs ++ [⟨name, shape, "buf_" ++ name⟩]
        else (c.entry d).outputs } :=
  entry_outputAdded { c.lined [⟨0, .store "out_value" (.sym s)⟩] with stack := c.stack.tail } id
    name shape inside

theorem scope_cacheClosed (id : DispatchId) (name : String) (shape : Shape) (s : Symbol)
    {i : ScopeId} (inside : i < c.scopes.size) :
    (c.cacheClosed id name shape s).scope i =
      if c.current = i then (c.scope i).push ⟨0, .store "out_value" (.sym s)⟩ else c.scope i :=
  scope_modifyScope c c.current i _ inside

end

theorem Change.silent (h : Change c c') (stack : c'.stack = c.stack)
    (buffers : c'.buffers = c.buffers) : Silent c c' := by
  cases h with
  | fold token => exact (idle_fold c token).silent
  | required r => exact (idle_requiredAll c [r]).silent
  | remembered i node s => exact (idle_remembered c i node s).silent
  | deepened i depth => exact (idle_deepened c i depth).silent
  | constantAdded | injectedAdded => exact { Silent.refl c with }
  | declared shape e => exact silent_declared c shape e
  | called function shape args => exact silent_called c function shape args
  | nestedAdded caller spec inputs t =>
    exact { silent_pushScope c (c.nestedScope caller spec inputs t) with }
  | readAgain node reader id => exact silent_readAgain c reader id
  | cacheOpened => exact absurd stack (cons_ne_self _ _)
  | cacheClosed | rooted => exact absurd (append_right_eq_self.1 buffers) (cons_ne_nil _ _)

theorem respected_silent : Respected fun c c' => c'.stack = c.stack ∧ Silent c c' where
  refl c := ⟨rfl, .refl c⟩
  trans h h' := ⟨h'.1.trans h.1, h.2.trans h'.2⟩
  change h stack buffers := ⟨stack, h.silent stack buffers⟩
  cache {c d n reader reduction s} reads unknown h := by
    have inner := (silent_cacheOpened c n reader reduction).trans h.2
    have current : d.current = c.scopes.size := congrArg (List.headD · rootId) h.1
    refine ⟨respected_stack.cache reads unknown h.1,
      inner.scopes.trans (le_of_eq (size_modifyScope _ _ _).symm), fun i inside => ?_,
      inner.entries.trans (le_of_eq (size_modifyEntry _ _ _).symm), fun i inside => ?_⟩
    · rw [scope_cacheClosed _ _ _ _ _ (inside.trans_le inner.scopes), current,
        if_neg (inside.ne')]
      exact inner.scope i inside
    · rw [entry_cacheClosed _ _ _ _ _ (inside.trans_le inner.entries)]
      dsimp only
      rw [if_neg (inside.ne')]
      exact inner.outputs i inside

/-! ## invariants -/

section
variable (g : Graph) (done : List NodeId)

/-- a node of the graph that the walk before generation has found sound -/
structure Stands (n : Node) : Prop where
  found : g.get? n.id = some n
  member : n.id ∈ done

/-- a node that its rule accepts -/
structure Accepted (n : Node) : Prop extends Stands g done n where
  typed : n.typing = .ok n.shape
  constant : ∀ {v}, n.op = .constant v → v.shape.isDefined = true
  ref : ∀ {name shape w rest}, n.op = .ref name shape → n.inputs = some w :: rest → w.shape = shape
  octaves : ∀ {kind k}, n.op = .fractal kind k → 1 ≤ k ∧ k ≤ maxOctaves
  reduction : ∀ {r}, n.op = .cache r → 0 ≤ r ∧ r ≤ maxReduction
  named : ∀ {name shape fallback}, n.op = .inject name shape fallback → isIdentifier name = true

variable (I : Context → Prop) (P : Context → ScopeId → NodeId → Symbol → Prop)

/-- an invariant at one context: a fact about the context, and one about each remembered symbol -/
structure Held (c : Context) : Prop where
  kept : Kept c
  linked : Linked done c
  fact : I c
  symbols : ∀ i < c.scopes.size, (c.scope i).hasPosition = true →
    ∀ p ∈ (c.scope i).symbols, P c i p.1 p.2
  position : ∀ i < c.scopes.size, (c.scope i).hasPosition = true →
    (Graph.positionId, .var .position) ∈ (c.scope i).symbols

structure Preserved : Prop where
  idle : ∀ {c c'}, Idle c c' → I c → I c'
  later : ∀ {c c' i id s}, Reaches c c' → Held done I P c → Linked done c' → i < c.scopes.size →
    (c.scope i).hasPosition = true → P c i id s → P c' i id s
  start : ∀ {c i}, (c.scope i).hasPosition = true → (c.scope i).lines.toList = [] →
    P c i Graph.positionId (.var .position)
  constant : ∀ {c c' n v slot}, Held done I P c → Accepted g done n → n.op = .constant v →
    ConstantSlot n.id v c slot c' → Linked done c' →
    I c' ∧ P c' c.current n.id (.param slot v.shape)
  inject : ∀ {c c' n name shape fallback v slot}, Held done I P c → Accepted g done n →
    n.op = .inject name shape fallback → (c.options.bindings.lookup name).or fallback = some v →
    v.shape = shape → InjectedSlot name v c slot c' → Linked done c' →
    I c' ∧ P c' c.current n.id (.param slot shape)
  ref : ∀ {c n name shape w rest s}, Held done I P c → Accepted g done n → n.op = .ref name shape →
    n.inputs = some w :: rest → P c c.current w.source s → P c c.current n.id s
  same : ∀ {c n w s}, Held done I P c → Accepted g done n → n.op = .cast (n.inputShape 0) →
    n.inputs = [some w] → P c c.current w.source s → P c c.current n.id s
  term : ∀ {c c' n ws ss}, Held done I P c → Accepted g done n → Node.isPlain n = true →
    n.inputs = ws.map some → n.typing = .ok n.shape →
    Forall₂ (fun (w : Wire) s => P c c.current w.source s) ws ss →
    (∀ r ∈ termRoutines n, r ∈ c.routines) →
    c' = c.declared n.shape (Compile.term n (ss.map Expr.sym)) → Linked done c' →
    I c' ∧ P c' c.current n.id c.nextBound
  distance : ∀ {c d c' n metric v w a b}, Held done I P c → Accepted g done n →
    n.op = .distance metric → n.inputs = [some v, some w] → P c c.current v.source a →
    P c c.current w.source b → d = c.declared (n.inputShape 0) (.sub (.sym a) (.sym b)) →
    c' = d.declared n.shape (.metric metric (.sym c.nextBound) (n.inputShape 0)) → Linked done c' →
    I c' ∧ P c' c.current n.id d.nextBound
  nested : ∀ {c d c' n r spec t ws ss callee}, Held done I P c → Accepted g done n →
    nestedParts n = some (r, spec, t) → n.inputs = ws.map some → n.typing = .ok n.shape →
    Forall₂ (fun (w : Wire) s => P c c.current w.source s) ws ss → r ∈ c.routines →
    FunctionOf spec ws t c callee d → c' = d.called (d.scope callee).name spec.result ss →
    Linked done c' → I c' ∧ P c' c.current n.id (.var (.result (d.names + 1)))
  again : ∀ {c n reader id}, Held done I P c → Accepted g done n →
    c.currentScope.dispatch = some reader → c.caches.lookup n.id = some id →
    Linked done (c.readAgain reader id) → I (c.readAgain reader id)
  opened : ∀ {c n reduction w reader}, Held done I P c → Accepted g done n →
    n.op = .cache reduction → n.inputs = [some w] → c.currentScope.dispatch = some reader →
    c.caches.lookup n.id = none → Linked done (c.cacheOpened n reader reduction) →
    I (c.cacheOpened n reader reduction)
  closed : ∀ {c c' n reduction w id s}, Held done I P c → Accepted g done n →
    n.op = .cache reduction → n.inputs = [some w] → 0 < id → id < c.entries.size →
    (c.entry id).scope = c.current → c.cached id = some n.id → (c.entry id).outputs = [] →
    P c c.current w.source s → c' = c.cacheClosed id (c.entry id).name n.shape s →
    Linked done c' → I c'
  sampled : ∀ {c c' n reduction id output more}, Held done I P c → Accepted g done n →
    n.op = .cache reduction → 0 < id → id < c.entries.size → c.cached id = some n.id →
    (c.entry id).outputs = output :: more → .cacheIndex ∈ c.routines →
    c' = c.declared n.shape (sampleExpr output.buffer reduction) → Linked done c' →
    I c' ∧ P c' c.current n.id c.nextBound

end

section
variable {g : Graph} {done : List NodeId} {I : Context → Prop}
  {P : Context → ScopeId → NodeId → Symbol → Prop} {fuel : Nat} {n : Node}

section
variable (h : Held done I P c) (p : Preserved g done I P)
include h p

section
variable (reaches : Reaches c c') (q : Quiet c c') (l : Linked done c') (fact : J c')
include reaches q l fact

/-- a change that remembers nothing, and opens functions without lines if at all -/
theorem Held.quiet
    (new : ∀ i < c'.scopes.size, c.scopes.size ≤ i → (c'.scope i).hasPosition = true →
      (c'.scope i).lines.toList = []) : Held done J P c' where
  kept := reaches.kept h.kept
  linked := l
  fact := fact
  symbols i inside position x member := by
    rcases lt_or_ge i c.scopes.size with old | fresh
    · rw [(q.grows.scope i old).placed] at position
      rw [q.symbols i old] at member
      exact p.later reaches h l old position (h.symbols i old position x member)
    · rw [q.new i inside fresh position] at member
      obtain rfl := mem_singleton.1 member
      exact p.start position (new i inside fresh position)
  position i inside position := by
    rcases lt_or_ge i c.scopes.size with old | fresh
    · rw [(q.grows.scope i old).placed] at position
      rw [q.symbols i old]
      exact h.position i old position
    · rw [q.new i inside fresh position]
      exact .head _

theorem Held.quiet_of_size (size : c'.scopes.size = c.scopes.size) : Held done J P c' :=
  h.quiet p reaches q l fact fun i inside new => by omega

end

theorem Held.requiredAll (rs : List Routine) : Held done I P (c.requiredAll rs) :=
  have idle := idle_requiredAll c rs
  h.quiet_of_size p (reaches_requiredAll rs c) (quiet_requiredAll c rs)
    (h.linked.still h.kept (still_requiredAll c rs)) (p.idle idle h.fact) idle.scopes

theorem Held.fold (token : List UInt8) : Held done I P (c.fold token) :=
  h.quiet_of_size p (.single (.fold c _)) (quiet_fold c _) (h.linked.still h.kept (still_fold c _))
    (p.idle (idle_fold c _) h.fact) rfl

/-- the function of a cache starts with nothing but the position -/
theorem Held.cacheOpened (below : Below done c n.id) {reader : DispatchId} {reduction : Int}
    (reads : c.currentScope.dispatch = some reader) (unknown : c.caches.lookup n.id = none)
    (fact : J (c.cacheOpened n reader reduction)) :
    Held done J P (c.cacheOpened n reader reduction) := by
  refine h.quiet p (.single (.cacheOpened c n reader reduction reads unknown))
    (quiet_cacheOpened n reduction reads unknown)
    (h.linked.cacheOpened h.kept below reads reduction)
    fact ?_
  intro i inside new _
  rw [eq_size_of_push inside new, scope_cacheOpened n reader reduction]
  rfl

theorem Held.rooted {r : Root} {shape : Shape} (l : Linked done (c.rooted r shape s))
    (fact : J (c.rooted r shape s)) : Held done J P (c.rooted r shape s) :=
  h.quiet_of_size p (.single (.rooted c r shape s)) (quiet_rooted c r shape s) l fact
    (size_modifyScope _ _ _)

theorem Held.remembered {i : ScopeId} {node : NodeId} (holds : P c i node s) :
    Held done I P (c.remembered i node s) := by
  have reaches : Reaches c (c.remembered i node s) := .single (.remembered c i node s)
  have linked : Linked done (c.remembered i node s) :=
    h.linked.still h.kept (still_remembered c i node s)
  have idle := idle_remembered c i node s
  have fact := p.idle idle h.fact
  have scope {j : ScopeId} (inside : j < c.scopes.size) : (c.remembered i node s).scope j =
      if i = j then { c.scope j with symbols := (node, s) :: (c.scope j).symbols } else c.scope j :=
    scope_modifyScope c i j _ inside
  refine ⟨reaches.kept h.kept, linked, fact, ?_, ?_⟩
  · intro j inside position x member
    rw [idle.scopes] at inside
    rw [idle.placed j] at position
    refine p.later reaches h linked inside position ?_
    rw [scope inside] at member
    split at member
    case isTrue same =>
      subst same
      rcases mem_cons.1 member with rfl | member
      · exact holds
      · exact h.symbols i inside position x member
    case isFalse => exact h.symbols j inside position x member
  · intro j inside position
    rw [idle.scopes] at inside
    rw [idle.placed j] at position
    rw [scope inside]
    split
    · exact .tail _ (h.position j inside position)
    · exact h.position j inside position

end

theorem FunctionOf.unplaced {spec : Nested} {inputs : List Wire} {t : Template} {id : ScopeId}
    (h : FunctionOf spec inputs t c id c') :
    ∀ i < c'.scopes.size, c.scopes.size ≤ i → (c'.scope i).hasPosition = false := by
  intro i inside new
  cases h with
  | again known =>
    have inside : i < c.scopes.size := Nat.lt_of_lt_of_eq inside (size_modifyScope _ _ _)
    omega
  | first unknown =>
    rw [eq_size_of_push inside new]
    exact congrArg Scope.hasPosition (scope_nestedAdded c.current spec inputs t)

/-- a generation keeps an invariant, and it holds of the symbol that is returned -/
def Keeps (done : List NodeId) (I : Context → Prop) (P : Context → ScopeId → NodeId → Symbol → Prop)
    (visit : Visit) : Prop :=
  ∀ id c s c', Ran (visit id) c s c' → Held done I P c → Below done c id →
    Held done I P c' ∧ P c' c.current id s

section
variable (wf : g.WellFormed) (sorted : Sorted g done) (p : Preserved g done I P)
  (step : Keeps done I P (emitWithin g fuel))
include wf sorted p step

theorem Visits.held {ws : List (Option Wire)} {ss : List Symbol}
    (h : Visits (emitWithin g fuel) ws c ss c') (held : Held done I P c)
    (below : ∀ w, some w ∈ ws → Below done c w.source) :
    Held done I P c' ∧ ∃ inputs : List Wire, ws = inputs.map some ∧
      Forall₂ (fun (w : Wire) s => P c' c.current w.source s) inputs ss := by
  induction h with
  | nil c => exact ⟨held, [], rfl, .nil⟩
  | @cons w ws c d c' s ss head tail ih =>
    obtain ⟨held', holds⟩ := step _ _ _ _ head held (below w (.head _))
    have follows := emit_follows wf sorted _ head held.kept held.linked (below w (.head _))
    obtain ⟨held'', inputs, rfl, all⟩ := ih held' fun w member =>
      (below w (.tail _ member)).follows held.kept follows
    rw [follows.current] at all
    refine ⟨held'', w :: inputs, rfl, .cons ?_ all⟩
    have inside := held'.kept.current
    rw [follows.current] at inside
    exact p.later tail.reaches held' held''.linked inside.1 inside.2 holds

theorem CacheOf.held {reduction : Int} {id : DispatchId}
    (h : CacheOf (emitWithin g fuel) n w.source reduction c id c') (held : Held done I P c)
    (accepted : Accepted g done n) (below : Below done c n.id) (op : n.op = .cache reduction)
    (inputs : n.inputs = [some w]) :
    Held done I P c' ∧ 0 < id ∧ id < c'.entries.size ∧ c'.cached id = some n.id := by
  have value (reader : DispatchId) : Below done (c.cacheOpened n reader reduction) w.source :=
    below.cacheOpened wf sorted accepted.found (inputs ▸ .head _) reader reduction
  obtain ⟨_, -, listed⟩ := h.listed (emit_follows wf sorted fuel) held.kept held.linked below value
  have linked := listed.linked
  cases h with
  | @again reader _ reads known =>
    obtain ⟨positive, inside⟩ := held.kept.cache known
    have size : (c.readAgain reader id).scopes.size = c.scopes.size := by rw [readAgain_frame]
    refine ⟨held.quiet_of_size p listed.reaches (quiet_readAgain reads known) linked
      (p.again held accepted reads known linked) size, positive, ?_, ?_⟩
    · rw [size_readAgain]
      exact inside
    · rw [cached_congr (readAgain_caches c reader id)]
      exact held.linked.cached _ (mem_of_lookup known)
  | @first d reader s reads unknown body =>
    obtain ⟨inside, -⟩ := held.kept.reader reads
    have size := size_cacheOpened c n reader reduction
    have entry := entry_cacheOpened (c := c) n reduction inside
    have opened : Held done I P (c.cacheOpened n reader reduction) :=
      held.cacheOpened p below reads unknown (p.opened held accepted op inputs reads unknown
        (held.linked.cacheOpened held.kept below reads reduction))
    obtain ⟨inner, holds⟩ := step _ _ _ _ body opened (value reader)
    have reaches := emit_reaches body
    have grows := reaches.grows.entry c.entries.size (size ▸ lt_add_one _)
    have name : (d.entry c.entries.size).name = c.cacheName := by
      rw [grows.name, entry]
    have there : c.entries.size < d.entries.size :=
      (size ▸ lt_add_one _).trans_le reaches.grows.entries
    have current : d.current = c.scopes.size := emit_current body
    have cached : d.cached c.entries.size = some n.id := by
      rw [reaches.cached (size ▸ lt_add_one _), cached_cacheOpened, if_pos rfl]
    have unwritten : (d.entry c.entries.size).outputs = [] := by
      rw [(emit_respected respected_silent body).2.outputs _ (size ▸ lt_add_one _), entry]
    have own : (d.entry c.entries.size).scope = d.current := by
      rw [grows.scope, entry, current]
    have fact := p.closed inner accepted op inputs held.kept.main.1 there own cached unwritten
      (emit_current body ▸ holds) (by rw [name]) linked
    refine ⟨inner.quiet_of_size p (.single (.cacheClosed _ _ _ _ _)) (quiet_cacheClosed _ _ _ _ _)
      linked fact (size_modifyScope _ _ _), held.kept.main.1, ?_, cached⟩
    exact Nat.lt_of_lt_of_eq there (size_modifyEntry _ _ _).symm

end

section
variable (wf : g.WellFormed)
include wf

theorem Rule.accepted {visit : Visit} (h : Rule visit n c s c')
    (stands : Stands g done n) : Accepted g done n := by
  have leaf {σ : Shape} (typed : n.op.typingOf [] = .ok σ)
      (takes : n.op.Takes n.inputs.length → n.inputs = [])
      (other : ∀ name shape, n.op ≠ .ref name shape) : n.typing = .ok n.shape := by
    rcases wf.takes stands.found with h | ⟨name, shape, w, h, -⟩
    · have typing := (@typing_inputs n [] (takes h)).trans typed
      rw [typing, Node.shape_eq typing]
    · exact absurd h (other name shape)
  refine ⟨stands, ?_, ?_, ?_, ?_, ?_, ?_⟩
  · cases h with
    | position op placed | constant op defined taken | inject op named bound fits taken =>
      exact leaf (by rw [op]; rfl) (by rw [op]; exact eq_nil_of_length_eq_zero) (by simp [op])
    | ref op inputs target fits =>
      rcases wf.takes stands.found with h | ⟨_, _, w, -, only⟩
      · rw [op, inputs] at h
        cases h
      · have typing := @typing_inputs n [w] only
        rw [op] at typing
        rw [Node.shape_eq typing]
        exact typing
    | same op inputs typed fits | term plain inputs typed | distance op inputs typed
    | nested parts octaves inputs typed again function
    | cache op range inputs typed placed dispatch made => exact typed
  · intro v op
    cases h with
    | constant op' defined taken =>
      cases op.symm.trans op'
      exact defined
    | term plain => simp [Node.isPlain, op] at plain
    | nested parts => simp [nestedParts, op] at parts
    | _ => simp_all
  · intro name shape w rest op inputs
    cases h with
    | ref op' inputs' target fits =>
      cases op.symm.trans op'
      cases inputs.symm.trans inputs'
      exact fits
    | term plain => simp [Node.isPlain, op] at plain
    | nested parts => simp [nestedParts, op] at parts
    | _ => simp_all
  · intro kind k op
    cases h with
    | term plain => simp [Node.isPlain, op] at plain
    | nested parts octaves => exact octaves kind k op
    | _ => simp_all
  · intro r op
    cases h with
    | cache op' range =>
      cases op.symm.trans op'
      exact range
    | term plain => simp [Node.isPlain, op] at plain
    | nested parts => simp [nestedParts, op] at parts
    | _ => simp_all
  · intro name shape fallback op
    cases h with
    | inject op' named bound fits taken =>
      cases op.symm.trans op'
      exact named
    | term plain => simp [Node.isPlain, op] at plain
    | nested parts => simp [nestedParts, op] at parts
    | _ => simp_all

theorem Rule.held (sorted : Sorted g done) (p : Preserved g done I P)
    (step : Keeps done I P (emitWithin g fuel)) (h : Rule (emitWithin g fuel) n c s c')
    (held : Held done I P c) (stands : Stands g done n) (below : Below done c n.id) :
    Held done I P c' ∧ P c' c.current n.id s := by
  have accepted := h.accepted wf stands
  have operand (w : Wire) (member : some w ∈ n.inputs) : Below done c w.source :=
    below.input wf sorted stands.found member
  have linked := (h.follows (emit_follows wf sorted fuel) wf sorted stands.found held.kept
    held.linked below).linked
  cases h with
  | position op placed =>
    refine ⟨held, ?_⟩
    have own : n.id = Graph.positionId := (wf.position stands.found).1 op
    obtain ⟨inside, position⟩ := held.kept.current
    rw [own]
    exact held.symbols _ inside position _ (held.position _ inside position)
  | constant op defined taken =>
    obtain ⟨fact, holds⟩ := p.constant held accepted op taken linked
    have size : c'.scopes.size = c.scopes.size := by cases taken <;> rfl
    exact ⟨held.quiet_of_size p (taken.respected respected_reaches) taken.quiet
      linked fact size, holds⟩
  | inject op named bound fits taken =>
    obtain ⟨fact, holds⟩ := p.inject held accepted op bound fits taken linked
    have size : c'.scopes.size = c.scopes.size := by cases taken <;> rfl
    exact ⟨held.quiet_of_size p (taken.respected respected_reaches) taken.quiet
      linked fact size, holds⟩
  | @ref _ name shape w rest s op inputs target fits =>
    obtain ⟨held', holds⟩ := step _ _ _ _ target held (operand w (inputs ▸ .head _))
    have current := emit_current target
    rw [← current] at holds ⊢
    exact ⟨held', p.ref held' accepted op inputs holds⟩
  | @same _ target s op inputs typed fits =>
    obtain ⟨held', ws, all, holds⟩ := inputs.held wf sorted p step held operand
    obtain ⟨w, rfl⟩ := length_eq_one_iff.1 (by simpa using holds.length_eq)
    rw [← inputs.current] at holds ⊢
    refine ⟨held', p.same held' accepted (by rw [op, fits]) all ?_⟩
    cases holds with
    | cons head _ => exact head
  | @term d ss plain inputs typed =>
    obtain ⟨held', ws, all, holds⟩ := inputs.held wf sorted p step held operand
    let e := d.requiredAll (termRoutines n)
    have ready : Held done I P e := held'.requiredAll p (termRoutines n)
    have current : e.current = c.current := (current_requiredAll d _).trans inputs.current
    have holds' : Forall₂ (fun (w : Wire) s => P e e.current w.source s) ws ss := by
      obtain ⟨inside, position⟩ := held'.kept.current
      rw [inputs.current] at inside position
      rw [current]
      exact holds.imp fun w s h =>
        p.later (reaches_requiredAll (termRoutines n) d) held' ready.linked inside position h
    obtain ⟨fact', own⟩ :=
      p.term ready accepted plain all typed holds' (mem_requiredAll d _) rfl linked
    have next : e.nextBound = d.nextBound := nextBound_requiredAll _ _
    rw [current, next] at own
    exact ⟨ready.quiet_of_size p (.single (.declared _ _ _)) (quiet_declared _ _ _) linked fact'
      (size_modifyScope _ _ _), own⟩
  | @distance d metric a b op inputs typed =>
    obtain ⟨held', ws, all, holds⟩ := inputs.held wf sorted p step held operand
    obtain ⟨v, w, rfl⟩ := length_eq_two.1 (by simpa using holds.length_eq)
    obtain ⟨first, second⟩ : P d c.current v.source a ∧ P d c.current w.source b := by
      cases holds with
      | cons first rest => cases rest with
        | cons second _ => exact ⟨first, second⟩
    rw [← inputs.current] at first second ⊢
    obtain ⟨fact, own⟩ := p.distance held' accepted op all first second rfl rfl linked
    refine ⟨held'.quiet_of_size p ?_ ((quiet_declared _ _ _).trans (quiet_declared _ _ _)) linked
      fact ((size_modifyScope _ _ _).trans (size_modifyScope _ _ _)), own⟩
    exact .head (.declared _ _ _) (.single (.declared _ _ _))
  | @nested d d' e r spec t ss ss' callee parts octaves inputs typed again function =>
    obtain ⟨held', ws, all, -⟩ := inputs.held wf sorted p step held operand
    have follows := inputs.follows (emit_follows wf sorted fuel) held.kept held.linked operand
    have ready : Held done I P (d.required r) := held'.requiredAll p [r]
    have upTo : Below done (d.required r) n.id :=
      (below.follows held.kept follows).of_reaches held'.kept (.single (.required d r)) rfl
    obtain ⟨held'', ws', all', holds⟩ := again.held wf sorted p step ready fun w member =>
      upTo.input wf sorted stands.found member
    have current : d'.current = c.current := again.current.trans inputs.current
    rw [show (d.required r).current = d'.current from again.current.symm] at holds
    have filtered : n.inputs.filterMap id = ws' := by
      rw [all', filterMap_map]
      exact filterMap_some
    rw [filtered] at function
    have provided : r ∈ d'.routines :=
      again.reaches.grows.routines.subset (kernelLibrary.mem_require d.routines r)
    obtain ⟨fact, own⟩ :=
      p.nested held'' accepted parts all' typed holds provided function rfl linked
    rw [current] at own
    refine ⟨held''.quiet p (function.reaches.tail (.called _ _ _ _))
      (function.quiet.trans (quiet_called _ _ _ _)) linked fact ?_, own⟩
    intro i inside new position
    rw [show (e.called (e.scope callee).name spec.result ss').scopes.size = e.scopes.size from
      size_modifyScope _ _ _] at inside
    rw [((Change.called e (e.scope callee).name spec.result ss').grows.scope i inside).placed,
      function.unplaced i inside new] at position
    cases position
  | @cache d reduction w id output more op range inputs typed placed dispatch made =>
    obtain ⟨held', positive, inside, cached⟩ :=
      dispatch.held wf sorted p step held accepted below op inputs
    have ready : Held done I P (d.required .cacheIndex) := held'.requiredAll p [.cacheIndex]
    obtain ⟨fact, own⟩ := p.sampled ready accepted op positive inside cached made
      (kernelLibrary.mem_require d.routines _) rfl linked
    rw [show (d.required .cacheIndex).current = c.current from dispatch.current] at own
    exact ⟨ready.quiet_of_size p (.single (.declared _ _ _)) (quiet_declared _ _ _) linked fact
      (size_modifyScope _ _ _), own⟩

theorem emit_held (sorted : Sorted g done) (p : Preserved g done I P) (fuel : Nat) :
    Keeps done I P (emitWithin g fuel) := by
  induction fuel with
  | zero =>
    intro id c s c' ran
    exact absurd ran not_ran_throw
  | succ fuel ih =>
    intro id c s c' ran held below
    obtain ⟨n, found, generated⟩ := emitWithin_ran ran
    obtain rfl := wf.id_eq found
    have stands : Stands g done n := ⟨found, below.1⟩
    cases generated with
    | again known =>
      refine ⟨held.fold p _, ?_⟩
      obtain ⟨inside, position⟩ := held.kept.current
      exact (held.fold p _).symbols _ inside position _ (mem_of_lookup known)
    | @first d _ unknown complete rule =>
      obtain ⟨held', own⟩ := rule.held wf sorted p ih (held.fold p _) stands
        (below.of_reaches held.kept (.single (.fold c _)) rfl)
      have remembered := held'.remembered p own
      refine ⟨remembered, ?_⟩
      have reaches := rule.reaches.grows
      obtain ⟨inside, position⟩ := held.kept.current
      have inside : c.current < d.scopes.size := inside.trans_le reaches.scopes
      have position : (d.scope c.current).hasPosition = true := by
        rw [(reaches.scope c.current held.kept.current.1).placed]
        exact position
      exact p.later (.single (.remembered _ _ _ _)) held' remembered.linked inside position own

theorem stands_root {r : Root} (found : r.node.bind g.get? = some n)
    (member : n.id ∈ done) : Stands g done n := by
  obtain ⟨id, -, found'⟩ := Option.bind_eq_some_iff.1 found
  exact ⟨by rw [wf.id_eq found', found'], member⟩

/-- outputs generated one after the other keep an invariant that speaks of the outputs so far -/
theorem RootsRan.held {I : List Root → Context → Prop} (sorted : Sorted g done)
    (p : ∀ rs, Preserved g done (I rs) P)
    (rooted : ∀ {rs r n s c}, Held done (I rs) P c → r.node.bind g.get? = some n → Stands g done n →
      P c rootId n.id s → Linked done (c.rooted r n.shape s) → I (rs ++ [r]) (c.rooted r n.shape s))
    (there : ∀ r ∈ roots, ∀ n, r.node.bind g.get? = some n → n.id ∈ done)
    (free : ∀ r ∈ roots, ∀ k : Nat, r.target ≠ "cache_" ++ toString k) (h : RootsRan g roots c c')
    {rs : List Root} (held : Held done (I rs) P c) (root : AtRoot c) :
    Held done (I (rs ++ roots)) P c' := by
  induction h generalizing rs with
  | nil c =>
    rw [append_nil]
    exact held
  | @cons r rest n s c d c' found ran tail ih =>
    have stands : Stands g done n := stands_root wf found (there r (.head _) n found)
    have start := held.fold (p rs) (rootBytes r n)
    have announced := root.later held.kept (.single (.fold c (rootBytes r n))) rfl
    obtain ⟨made, own⟩ := emit_held wf sorted (p rs) _ _ _ _ _ ran start
      (announced.below start.kept stands.member)
    have linked := made.linked.rooted made.kept n.shape s (free r (.head _))
    have stored : Held done (I (rs ++ [r])) P (d.rooted r n.shape s) :=
      made.rooted (p rs) linked (rooted made found stands (root.current ▸ own) linked)
    have current := emit_current ran
    have rest := ih (fun r member => there r (.tail _ member))
      (fun r member => free r (.tail _ member)) stored
      (announced.later start.kept ((emit_reaches ran).tail (.rooted d r n.shape s)) current)
    rwa [append_assoc] at rest

end

theorem held_opened (p : Preserved g done I P) (o : Options) (fact : I (Context.opened o)) :
    Held done I P (Context.opened o) := by
  refine ⟨kept_opened o, linked_opened done o, fact, ?_, ?_⟩
  · intro i inside position x member
    obtain rfl := Nat.lt_one_iff.1 inside
    obtain rfl := mem_singleton.1 member
    exact p.start rfl rfl
  · intro i inside _
    obtain rfl := Nat.lt_one_iff.1 inside
    exact .head _

/-- an invariant that holds of the start holds when all outputs are generated, as long as the rules
keep it on a part of the graph that holds the outputs and all their operands -/
theorem parsed_held {I : List NodeId → List Root → Context → Prop}
    {P : List NodeId → Context → ScopeId → NodeId → Symbol → Prop}
    {S : NodeId → Prop} [DecidablePred S]
    {o : Options} (wf : g.WellFormed) (h : g.parsed roots o = .ok c)
    (closed : ∀ {id n w}, S id → g.get? id = some n → some w ∈ n.inputs → S w.source)
    (outputs : ∀ r ∈ roots, ∀ n, r.node.bind g.get? = some n → S n.id)
    (opened : ∀ done, I done [] (Context.opened o))
    (p : ∀ done, Sorted g done → (∀ id ∈ done, S id) → ∀ rs, Preserved g done (I done rs) (P done))
    (rooted : ∀ done, Sorted g done → ∀ {rs r n s c}, Held done (I done rs) (P done) c →
      r.node.bind g.get? = some n → Stands g done n → P done c rootId n.id s →
        Linked done (c.rooted r n.shape s) → I done (rs ++ [r]) (c.rooted r n.shape s)) :
    ∃ done d, Sorted g done ∧ (∀ id ∈ done, S id) ∧ c = d.finished ∧
      Held done (I done roots) (P done) d := by
  obtain ⟨-, valid, d, ran, rfl, -⟩ := parsed_ok h
  obtain ⟨all, sortedAll, thereAll⟩ := validate_sorted wf valid
  obtain ⟨done, sorted, part, there⟩ : ∃ done, Sorted g done ∧ (∀ id ∈ done, S id) ∧
      ∀ r ∈ roots, ∀ n, r.node.bind g.get? = some n → n.id ∈ done := by
    refine ⟨all.filter S, sortedAll.filter closed, fun _ member => ?_, fun r member n found => ?_⟩
    · exact of_decide_eq_true (mem_filter.1 member).2
    · exact mem_filter.2
        ⟨thereAll r member n found, decide_eq_true (outputs r member n found)⟩
  have start := held_opened (p done sorted part []) o (opened done)
  exact ⟨done, d, sorted, part, rfl,
    ran.held wf sorted (p done sorted part) (rooted done sorted) there
    (validate_free valid) start ⟨rfl, rfl⟩⟩

theorem parsed_holds {I : List NodeId → List Root → Context → Prop}
    {P : List NodeId → Context → ScopeId → NodeId → Symbol → Prop} {o : Options}
    (wf : g.WellFormed) (h : g.parsed roots o = .ok c)
    (opened : ∀ done, I done [] (Context.opened o))
    (p : ∀ done, Sorted g done → ∀ rs, Preserved g done (I done rs) (P done))
    (rooted : ∀ done, Sorted g done → ∀ {rs r n s c}, Held done (I done rs) (P done) c →
      r.node.bind g.get? = some n → Stands g done n → P done c rootId n.id s →
        Linked done (c.rooted r n.shape s) → I done (rs ++ [r]) (c.rooted r n.shape s)) :
    ∃ done, Sorted g done ∧ Kept c ∧ Linked done c ∧ I done roots c := by
  obtain ⟨done, d, sorted, -, rfl, held⟩ := parsed_held (S := fun _ => True) wf h
    (fun _ _ _ => trivial) (fun _ _ _ _ => trivial) opened (fun done sorted _ =>
      p done sorted) rooted
  exact ⟨done, sorted, kept_finished held.kept, linked_finished held.linked held.kept,
    (p done sorted roots).idle (idle_finished d) held.fact⟩

/-! ## shapes of symbols -/

/-- a fact about the symbol of a node that looks at nothing but the shape of the node -/
def OfShape (g : Graph) (Q : Context → ScopeId → Shape → Symbol → Prop) (c : Context) (i : ScopeId)
    (id : NodeId) (s : Symbol) : Prop :=
  ∃ n, g.get? id = some n ∧ Q c i n.shape s

theorem Accepted.shape {σ : Shape} (accepted : Accepted g done n)
    (fixed : ∀ shapes, n.op.typingOf shapes = .ok σ) : n.shape = σ := by
  obtain ⟨ws, -, typing⟩ := typed_operands accepted.typed
  exact Except.ok.inj (typing.symm.trans (fixed _))

variable {Q : Context → ScopeId → Shape → Symbol → Prop} {i : ScopeId} {s : Symbol}

theorem OfShape.own (h : OfShape g Q c i n.id s) (found : g.get? n.id = some n) :
    Q c i n.shape s := by
  obtain ⟨m, found', holds⟩ := h
  cases found.symm.trans found'
  exact holds

section
variable (wf : g.WellFormed)
include wf

theorem ofShape_position (size : 0 < g.size) (holds : Q c i .vec3 s) :
    OfShape g Q c i Graph.positionId s := by
  obtain ⟨n, found⟩ := Graph.exists_get? (i := Graph.positionId) ⟨zero_lt_one, size⟩
  exact ⟨n, found, shape_position wf found ▸ holds⟩

theorem OfShape.input (h : OfShape g Q c i w.source s) (found : g.get? n.id = some n)
    (input : some w ∈ n.inputs) : Q c i w.shape s := by
  obtain ⟨m, source, holds⟩ := h
  obtain ⟨m', source', shape⟩ := wf.wire found input
  cases source.symm.trans source'
  exact shape ▸ holds

theorem OfShape.inputs {ws : List Wire} {ss : List Symbol} (found : g.get? n.id = some n)
    (inputs : n.inputs = ws.map some)
    (h : Forall₂ (fun (w : Wire) s => OfShape g Q c i w.source s) ws ss) :
    Forall₂ (fun (w : Wire) s => Q c i w.shape s) ws ss := by
  have member : ∀ w ∈ ws, some w ∈ n.inputs := fun w there => inputs ▸ mem_map_of_mem there
  clear inputs
  induction h with
  | nil => exact .nil
  | cons head _ ih =>
    exact .cons (head.input wf found (member _ (.head _)))
      (ih fun w there => member w (.tail _ there))

section
variable (h : OfShape g Q c i w.source s)
include h

theorem OfShape.passed (found : g.get? n.id = some n)
    (input : some w ∈ n.inputs) (same : n.shape = w.shape) : OfShape g Q c i n.id s :=
  ⟨n, found, same ▸ h.input wf found input⟩

theorem OfShape.ref {name : String} {shape : Shape} {rest : List (Option Wire)}
    (accepted : Accepted g done n) (op : n.op = .ref name shape)
    (inputs : n.inputs = some w :: rest) : OfShape g Q c i n.id s := by
  have own : n.shape = shape := accepted.shape fun _ => by rw [op]; rfl
  exact h.passed wf accepted.found (inputs ▸ .head _) (own.trans (accepted.ref op inputs).symm)

theorem OfShape.same (accepted : Accepted g done n) (op : n.op = .cast (n.inputShape 0))
    (inputs : n.inputs = [some w]) : OfShape g Q c i n.id s := by
  have own : n.shape = w.shape := by
    rw [shape_of_cast op inputs accepted.typed]
    simp [Node.inputShape, inputs]
  exact h.passed wf accepted.found (inputs ▸ .head _) own

end

end

end

end

end Terrain.Compile
