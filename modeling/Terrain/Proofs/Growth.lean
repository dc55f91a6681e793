import Mathlib.Logic.Relation
import Terrain.Proofs.Compilation
import Terrain.Proofs.Libraries

/-!
# Contexts only grow

Generating code is a chain of changes of the context (`Change`), and no change takes anything
back: functions keep their lines and their symbols, dispatches their outputs and the dispatches
they read, tables their entries, and the stream its bytes.

* `Change`           the changes that generating code can make;
* `Grows`            what a later context keeps of an earlier one;
* `Reaches.grows`    a chain of changes only adds;
* `Respected`        what a generation has if its parts have it;
* `emit_reaches`     a generation is a chain of changes, and leaves the open functions as they were.
-/

namespace Terrain.Kernel

variable {l : Line}

/-! ## fresh variables -/

/-- the variable that a line declares with a shape -/
def Line.declares : Line → Option (Var × Shape)
  | .bind v s _ => some (v, s)
  | .declare v s => some (v, s)
  | _ => none

/-- the variable that a line gives a place or a value -/
def Line.sets : Line → Option Var
  | .bind v _ _ | .letVar v _ | .declare v _ | .start v _ | .assign v _ => some v
  | .loop v _ _ _ | .call _ _ v => some v
  | _ => none

theorem Line.sets_of_declares {v : Var} {s : Shape} (h : l.declares = some (v, s)) :
    l.sets = some v := by
  cases l <;> cases h <;> rfl

/-- a line that sets nothing but variables numbered above `low` and up to `high` -/
def Line.Fresh (l : Line) (low high : Nat) : Prop :=
  ∀ v, l.sets = some v → ∃ k, low < k ∧ k ≤ high ∧ (v = .bound k ∨ v = .result k)

theorem Line.Fresh.mono {low low' high high' : Nat} (h : l.Fresh low high)
    (lower : low' ≤ low) (higher : high ≤ high') : l.Fresh low' high' := by
  intro v sets
  obtain ⟨k, above, below, var⟩ := h v sets
  exact ⟨k, by omega, by omega, var⟩

theorem Line.fresh_store (low high : Nat) (output : String) (e : Expr) :
    (Line.store output e).Fresh low high := by
  intro v sets
  cases sets

theorem Line.fresh_next {low : Nat} {v : Var} (sets : l.sets = some v)
    (next : v = .bound (low + 1) ∨ v = .result (low + 1)) : l.Fresh low (low + 1) := by
  intro w sets'
  cases sets.symm.trans sets'
  exact ⟨low + 1, by omega, by omega, next⟩

end Terrain.Kernel

namespace Terrain.Compile

open Kernel Hash List

variable {ws : List (Option Wire)} {ss : List Symbol} {value : NodeId} {reduction : Int}
variable {id : NodeId}

/-! ## access to functions and dispatches -/

section
variable (c : Context)

theorem scope_modifyScope (i j : ScopeId) (f : Scope → Scope) (h : j < c.scopes.size) :
    (c.modifyScope i f).scope j = if i = j then f (c.scope j) else c.scope j := by
  simp [Context.scope, Context.modifyScope, Array.getElem_modify, h, Array.getD_eq_getD_getElem?]

theorem entry_modifyEntry (i j : DispatchId) (f : Entry → Entry) (h : j < c.entries.size) :
    (c.modifyEntry i f).entry j = if i = j then f (c.entry j) else c.entry j := by
  simp [Context.entry, Context.modifyEntry, Array.getElem_modify, h, Array.getD_eq_getD_getElem?]

theorem scope_push (s : Scope) (j : ScopeId) :
    { c with scopes := c.scopes.push s }.scope j = if j = c.scopes.size then s else c.scope j := by
  simp only [Context.scope, Array.getD_eq_getD_getElem?, Array.getElem?_push]
  split <;> rfl

theorem entry_push (e : Entry) (j : DispatchId) :
    { c with entries := c.entries.push e }.entry j = if j = c.entries.size then
      e else c.entry j := by
  simp only [Context.entry, Array.getD_eq_getD_getElem?, Array.getElem?_push]
  split <;> rfl

end

/-! ## what stays -/

/-- a function with more arguments, more symbols at hand or more lines, whose variables take their
numbers between `low` and `high` -/
structure ScopeExtends (low high : Nat) (s s' : Scope) : Prop where
  name : s'.name = s.name
  placed : s'.hasPosition = s.hasPosition
  dispatch : s'.dispatch = s.dispatch
  args : s.args <+: s'.args
  lines : ∃ more, s'.lines.toList = s.lines.toList ++ more ∧
    ∀ l ∈ more, l.line.Fresh low high
  symbols : s.symbols <:+ s'.symbols
  depth : s.depth ≤ s'.depth

/-- a dispatch with more outputs, more reads or a greater depth -/
structure EntryExtends (e e' : Entry) : Prop where
  name : e'.name = e.name
  dims : e'.dims = e.dims
  reduction : e'.reduction = e.reduction
  scope : e'.scope = e.scope
  depth : e.depth ≤ e'.depth
  outputs : e.outputs <+: e'.outputs
  reads : e.reads <+: e'.reads

structure Grows (c c' : Context) : Prop where
  options : c'.options = c.options
  names : c.names ≤ c'.names
  stream : c.stream.bytes.toList <+: c'.stream.bytes.toList
  scopes : c.scopes.size ≤ c'.scopes.size
  scope : ∀ i < c.scopes.size, ScopeExtends c.names c'.names (c.scope i) (c'.scope i)
  entries : c.entries.size ≤ c'.entries.size
  entry : ∀ d < c.entries.size, EntryExtends (c.entry d) (c'.entry d)
  found : c.found <+: c'.found
  dispatches : c.dispatches <+: c'.dispatches
  buffers : c.buffers <+: c'.buffers
  nested : c.nested <:+ c'.nested
  caches : c.caches <:+ c'.caches
  parameters : c.parameters <+: c'.parameters
  constantSlots : c.constantSlots <:+ c'.constantSlots
  injectedSlots : c.injectedSlots <:+ c'.injectedSlots
  routines : c.routines <+: c'.routines

theorem ScopeExtends.refl (low high : Nat) (s : Scope) : ScopeExtends low high s s :=
  ⟨rfl, rfl, rfl, prefix_rfl, ⟨[], by simp⟩, suffix_rfl, le_rfl⟩

theorem ScopeExtends.trans {low mid high : Nat} {s t u : Scope} (h : ScopeExtends low mid s t)
    (h' : ScopeExtends mid high t u) (lower : low ≤ mid) (higher : mid ≤ high) :
    ScopeExtends low high s u := by
  obtain ⟨more, lines, fresh⟩ := h.lines
  obtain ⟨more', lines', fresh'⟩ := h'.lines
  refine ⟨h'.name.trans h.name, h'.placed.trans h.placed, h'.dispatch.trans h.dispatch,
    h.args.trans h'.args, ⟨more ++ more', by rw [lines', lines, append_assoc], ?_⟩,
    h.symbols.trans h'.symbols, le_trans h.depth h'.depth⟩
  exact forall_mem_append.2 ⟨fun l member => (fresh l member).mono le_rfl higher,
    fun l member => (fresh' l member).mono lower le_rfl⟩

theorem EntryExtends.refl (e : Entry) : EntryExtends e e :=
  ⟨rfl, rfl, rfl, rfl, le_rfl, prefix_rfl, prefix_rfl⟩

theorem EntryExtends.trans {d e f : Entry} (h : EntryExtends d e) (h' : EntryExtends e f) :
    EntryExtends d f :=
  ⟨h'.name.trans h.name, h'.dims.trans h.dims, h'.reduction.trans h.reduction,
    h'.scope.trans h.scope, le_trans h.depth h'.depth, h.outputs.trans h'.outputs,
    h.reads.trans h'.reads⟩

theorem Grows.refl (c : Context) : Grows c c where
  options := rfl
  names := le_rfl
  stream := prefix_rfl
  scopes := le_rfl
  scope _ _ := .refl _ _ _
  entries := le_rfl
  entry _ _ := .refl _
  found := prefix_rfl
  dispatches := prefix_rfl
  buffers := prefix_rfl
  nested := suffix_rfl
  caches := suffix_rfl
  parameters := prefix_rfl
  constantSlots := suffix_rfl
  injectedSlots := suffix_rfl
  routines := prefix_rfl

theorem Grows.trans {c d e : Context} (h : Grows c d) (h' : Grows d e) : Grows c e where
  options := h'.options.trans h.options
  names := h.names.trans h'.names
  stream := h.stream.trans h'.stream
  scopes := h.scopes.trans h'.scopes
  scope i hi :=
    (h.scope i hi).trans (h'.scope i (hi.trans_le h.scopes)) h.names h'.names
  entries := h.entries.trans h'.entries
  entry d hd := (h.entry d hd).trans (h'.entry d (hd.trans_le h.entries))
  found := h.found.trans h'.found
  dispatches := h.dispatches.trans h'.dispatches
  buffers := h.buffers.trans h'.buffers
  nested := h.nested.trans h'.nested
  caches := h.caches.trans h'.caches
  parameters := h.parameters.trans h'.parameters
  constantSlots := h.constantSlots.trans h'.constantSlots
  injectedSlots := h.injectedSlots.trans h'.injectedSlots
  routines := h.routines.trans h'.routines

/-- the tables of parameters and the options are left alone -/
structure SameTables (c c' : Context) : Prop where
  options : c'.options = c.options
  parameters : c'.parameters = c.parameters
  constantSlots : c'.constantSlots = c.constantSlots
  injectedSlots : c'.injectedSlots = c.injectedSlots

/-! ## changes -/

inductive Change : Context → Context → Prop
  | fold (c : Context) (token : List UInt8) : Change c (c.fold token)
  | declared (c : Context) (shape : Shape) (e : Expr) : Change c (c.declared shape e)
  | required (c : Context) (r : Routine) : Change c (c.required r)
  | remembered (c : Context) (id : ScopeId) (node : NodeId) (s : Symbol) :
      Change c (c.remembered id node s)
  | constantAdded (c : Context) (id : NodeId) (v : Value)
      (unknown : c.constantSlots.lookup id = none) : Change c (c.constantAdded id v)
  | injectedAdded (c : Context) (name : String) (v : Value)
      (unknown : c.injectedSlots.lookup name = none) : Change c (c.injectedAdded name v)
  | deepened (c : Context) (id : ScopeId) (depth : Int) (key : String)
      (known : c.nested.lookup key = some id) : Change c (c.deepened id depth)
  | nestedAdded (c : Context) (caller : ScopeId) (spec : Nested) (inputs : List Wire)
      (t : Template) (unknown : c.nested.lookup spec.key = none) :
      Change c (c.nestedAdded caller spec inputs t)
  | called (c : Context) (function : String) (shape : Shape) (args : List Symbol) :
      Change c (c.called function shape args)
  | readAgain (c : Context) (node : NodeId) (reader id : DispatchId)
      (reads : c.currentScope.dispatch = some reader) (known : c.caches.lookup node = some id) :
      Change c (c.readAgain reader id)
  | cacheOpened (c : Context) (n : Node) (reader : DispatchId) (reduction : Int)
      (reads : c.currentScope.dispatch = some reader) (unknown : c.caches.lookup n.id = none) :
      Change c (c.cacheOpened n reader reduction)
  | cacheClosed (c : Context) (id : DispatchId) (name : String) (shape : Shape) (s : Symbol) :
      Change c (c.cacheClosed id name shape s)
  | rooted (c : Context) (r : Root) (shape : Shape) (s : Symbol) : Change c (c.rooted r shape s)

abbrev Reaches : Context → Context → Prop := Relation.ReflTransGen Change

section
variable (c : Context)

theorem grows_modifyScope (i : ScopeId) (f : Scope → Scope) (high : Nat) (le : c.names ≤ high)
    (h : ∀ s, ScopeExtends c.names high s (f s)) :
    Grows c ({ c with names := high }.modifyScope i f) :=
  { Grows.refl c with
    names := le
    scopes := by simp [Context.modifyScope]
    scope := fun j hj => by
      rw [scope_modifyScope { c with names := high } i j f hj]
      split
      · exact h _
      · exact .refl _ _ _ }

theorem grows_modifyEntry (i : DispatchId) (f : Entry → Entry)
    (h : EntryExtends (c.entry i) (f (c.entry i))) : Grows c (c.modifyEntry i f) :=
  { Grows.refl c with
    entries := by simp [Context.modifyEntry]
    entry := fun j hj => by
      rw [entry_modifyEntry c i j f hj]
      split
      case isTrue e => exact e ▸ h
      · exact .refl _ }

theorem grows_fold (token : List UInt8) : Grows c (c.fold token) :=
  { Grows.refl c with
    stream := by
      show _ <+: (c.stream.fold token).bytes.toList
      rw [Stream.toList_fold]
      exact prefix_append _ _ }

theorem grows_fresh : Grows c { c with names := c.names + 1 } :=
  { Grows.refl c with
    names := Nat.le_succ _
    scope := fun _ _ => .refl _ _ _ }

theorem grows_pushScope (s : Scope) : Grows c { c with scopes := c.scopes.push s } :=
  { Grows.refl c with
    scopes := by simp
    scope := fun j hj => by
      rw [scope_push, if_neg (hj.ne)]
      exact .refl _ _ _ }

theorem grows_pushEntry (e : Entry) : Grows c { c with entries := c.entries.push e } :=
  { Grows.refl c with
    entries := by simp
    entry := fun j hj => by
      rw [entry_push, if_neg (hj.ne)]
      exact .refl _ }

theorem raiseDepth_succ (fuel : Nat) (id : DispatchId) (depth : Int) :
    raiseDepth (fuel + 1) id depth c =
      if depth ≤ (c.entry id).depth then c
      else (c.entry id).reads.foldl (fun c child => raiseDepth fuel child (depth + 1) c)
        (c.modifyEntry id fun d => { d with depth := depth }) := rfl

/-- what holds between a context and each of its raised versions, given that it holds of one
dispatch that is set deeper -/
theorem raiseDepth_induct {R : Context → Context → Prop} (refl : ∀ c, R c c)
    (trans : ∀ {c d e}, R c d → R d e → R c e)
    (set : ∀ (c : Context) (id : DispatchId) (depth : Int), (c.entry id).depth < depth →
      R c (c.modifyEntry id fun d => { d with depth := depth }))
    (fuel : Nat) (id : DispatchId) (depth : Int) : R c (raiseDepth fuel id depth c) := by
  induction fuel generalizing c id depth with
  | zero => exact refl c
  | succ fuel ih =>
    rw [raiseDepth_succ]
    split
    · exact refl c
    · have inner : ∀ (reads : List DispatchId) (d : Context),
          R d (reads.foldl (fun c child => raiseDepth fuel child (depth + 1) c) d) := by
        intro reads
        induction reads with
        | nil => exact refl
        | cons child reads ih' =>
          intro d
          exact trans (ih d child (depth + 1)) (ih' _)
      exact trans (set c id depth (by omega)) (inner _ _)

theorem grows_raiseDepth (fuel : Nat) (id : DispatchId) (depth : Int) :
    Grows c (raiseDepth fuel id depth c) :=
  raiseDepth_induct c Grows.refl Grows.trans
    (fun c id _ h => grows_modifyEntry c id _
      ⟨rfl, rfl, rfl, rfl, le_of_lt h, prefix_rfl, prefix_rfl⟩) fuel id depth

theorem raiseDepth_frame (fuel : Nat) (id : DispatchId) (depth : Int) :
    raiseDepth fuel id depth c = { c with entries := (raiseDepth fuel id depth c).entries } :=
  raiseDepth_induct (R := fun c d => d = { c with entries := d.entries }) c (fun _ => rfl)
    (fun h h' => by rw [h', h]) (fun _ _ _ _ => rfl) fuel id depth

theorem readAgain_frame (reader id : DispatchId) :
    c.readAgain reader id = { c with
      entries := (c.readAgain reader id).entries
      stream := (c.readAgain reader id).stream } := by
  unfold Context.readAgain
  rw [raiseDepth_frame]
  rfl

theorem sameTables_readAgain (reader id : DispatchId) : SameTables c (c.readAgain reader id) := by
  rw [readAgain_frame]
  exact ⟨rfl, rfl, rfl, rfl⟩

theorem requiredAll_frame (rs : List Routine) :
    c.requiredAll rs = { c with routines := (c.requiredAll rs).routines } := by
  induction rs generalizing c with
  | nil => rfl
  | cons r rs ih => exact ih (c.required r)

theorem current_requiredAll (rs : List Routine) : (c.requiredAll rs).current = c.current := by
  rw [requiredAll_frame]
  rfl

theorem grows_outputAdded (id : DispatchId) (target : String) (shape : Shape) :
    Grows c (c.outputAdded id target shape) := by
  have buffer : Grows c (c.addBuffer target shape (c.entry id)) :=
    { Grows.refl c with buffers := prefix_append _ _ }
  refine buffer.trans (grows_modifyEntry _ id _ ?_)
  exact { EntryExtends.refl _ with outputs := prefix_append _ _ }

theorem scopeExtends_push {low high : Nat} (s : Scope) (l : Indented)
    (fresh : l.line.Fresh low high) : ScopeExtends low high s (s.push l) :=
  { ScopeExtends.refl low high s with
    lines := ⟨[l], by simp [Scope.push], by simpa using fresh⟩ }

theorem grows_store (output : String) (e : Expr) : Grows c (c.lined [⟨0, .store output e⟩]) :=
  grows_modifyScope c c.current _ c.names (le_rfl)
    fun s => scopeExtends_push s _ (Line.fresh_store _ _ output e)

end

theorem Change.grows {c c' : Context} (h : Change c c') : Grows c c' := by
  cases h with
  | fold token => exact grows_fold c token
  | declared shape e =>
    refine grows_modifyScope c c.current _ (c.names + 1) (Nat.le_succ _) fun s => ?_
    exact { scopeExtends_push s ⟨0, _⟩ (Line.fresh_next rfl (.inl rfl)) with }
  | required r => exact { Grows.refl c with routines := kernelLibrary.prefix_require _ r }
  | remembered id node s =>
    refine grows_modifyScope c id _ c.names (le_rfl) fun f => ?_
    exact { ScopeExtends.refl _ _ f with symbols := suffix_cons _ _ }
  | constantAdded id v unknown =>
    exact { Grows.refl c with
      parameters := prefix_append _ _
      constantSlots := suffix_cons _ _ }
  | injectedAdded name v unknown =>
    exact { Grows.refl c with
      parameters := prefix_append _ _
      injectedSlots := suffix_cons _ _ }
  | deepened id depth key known =>
    refine grows_modifyScope c id _ c.names (le_rfl) fun s => ?_
    split
    case isTrue lower => exact { ScopeExtends.refl _ _ s with depth := le_of_lt lower }
    case isFalse => exact .refl _ _ s
  | nestedAdded caller spec inputs t unknown =>
    exact ((grows_fresh c).trans (grows_pushScope _ (c.nestedScope caller spec inputs t))).trans
      { Grows.refl _ with
        found := prefix_append _ _
        nested := suffix_cons _ _ }
  | called function shape args =>
    refine grows_modifyScope c c.current _ (c.names + 1) (Nat.le_succ _) fun s => ?_
    refine { ScopeExtends.refl c.names (c.names + 1) s with
      lines := ⟨[⟨0, .declare (.result (c.names + 1)) shape⟩,
        ⟨0, .call function args (.result (c.names + 1))⟩], by simp [Scope.push], ?_⟩ }
    refine forall_mem_cons.2 ⟨Line.fresh_next rfl (.inr rfl), ?_⟩
    exact forall_mem_singleton.2 (Line.fresh_next rfl (.inr rfl))
  | readAgain node reader id reads known =>
    refine (Grows.trans (grows_raiseDepth c _ _ _) (grows_modifyEntry _ reader _ ?_)).trans
      (grows_fold _ _)
    exact { EntryExtends.refl _ with reads := prefix_append _ _ }
  | cacheOpened n reader reduction reads unknown =>
    refine (((((grows_fresh c).trans (grows_pushScope _ _)).trans (grows_pushEntry _ _)).trans
      (grows_modifyEntry _ reader _ ?_)).trans (grows_fold _ _)).trans
      ((grows_fold _ _).trans
        { Grows.refl _ with
          found := prefix_append _ _
          dispatches := prefix_append _ _
          caches := suffix_cons _ _ })
    exact { EntryExtends.refl _ with reads := prefix_append _ _ }
  | cacheClosed id name shape s =>
    refine Grows.trans ?_ (grows_outputAdded _ id name shape)
    exact { grows_store c "out_value" (.sym s) with }
  | rooted r shape s =>
    refine Grows.trans (grows_modifyScope c rootId _ c.names (le_rfl) fun f => ?_)
      (grows_outputAdded _ 0 _ _)
    exact { scopeExtends_push f _ (Line.fresh_store _ _ _ _) with args := prefix_append _ _ }

theorem Reaches.grows {c c' : Context} (h : Reaches c c') : Grows c c' := by
  induction h with
  | refl => exact .refl c
  | tail _ change ih => exact ih.trans change.grows

/-! ## generations are chains of changes -/

/-- what every stretch of a generation has, since its parts have it: the changes that leave the open
functions and the outputs alone, and the caches, whose functions are opened and left again -/
structure Respected (R : Context → Context → Prop) : Prop where
  refl : ∀ c, R c c
  trans : ∀ {c d e}, R c d → R d e → R c e
  change : ∀ {c c'}, Change c c' → c'.stack = c.stack → c'.buffers = c.buffers → R c c'
  cache : ∀ {c d n reader reduction s}, c.currentScope.dispatch = some reader →
    c.caches.lookup n.id = none → R (c.cacheOpened n reader reduction) d →
    R c (d.cacheClosed c.entries.size c.cacheName n.shape s)

section
variable {R : Context → Context → Prop} {visit : Visit} {n : Node} {c c' : Context}

section
variable (p : Respected R)
include p

theorem Respected.tail {d : Context} (h : R c d) (change : Change d c')
    (stack : c'.stack = d.stack) (buffers : c'.buffers = d.buffers) : R c c' :=
  p.trans h (p.change change stack buffers)

theorem Respected.requiredAll (c : Context) (rs : List Routine) : R c (c.requiredAll rs) := by
  induction rs generalizing c with
  | nil => exact p.refl c
  | cons r rs ih => exact p.trans (p.change (.required c r) rfl rfl) (ih _)

theorem ConstantSlot.respected {v : Value} {slot : Nat} (h : ConstantSlot id v c slot c') :
    R c c' := by
  cases h with
  | again => exact p.refl c
  | first unknown => exact p.change (.constantAdded _ _ _ unknown) rfl rfl

theorem InjectedSlot.respected {name : String} {v : Value} {slot : Nat}
    (h : InjectedSlot name v c slot c') : R c c' := by
  cases h with
  | again => exact p.refl c
  | first unknown => exact p.change (.injectedAdded _ _ _ unknown) rfl rfl

theorem FunctionOf.respected {spec : Nested} {inputs : List Wire} {t : Template}
    {id : ScopeId} (h : FunctionOf spec inputs t c id c') : R c c' := by
  cases h with
  | again known => exact p.tail (p.change (.fold c _) rfl rfl) (.deepened _ _ _ _ known) rfl rfl
  | first unknown =>
    exact p.tail (p.change (.fold c _) rfl rfl) (.nestedAdded _ _ _ _ _ unknown) rfl rfl

end

section
variable (p : Respected R) (step : ∀ {id c s c'}, Ran (visit id) c s c' → R c c')
include p step

theorem Visits.respected (h : Visits visit ws c ss c') : R c c' := by
  induction h with
  | nil c => exact p.refl c
  | cons head _ ih => exact p.trans (step head) ih

theorem CacheOf.respected {id : DispatchId} (h : CacheOf visit n value reduction c id c') :
    R c c' := by
  cases h with
  | again reads known =>
    exact p.change (.readAgain c n.id _ _ reads known) (by rw [readAgain_frame])
      (by rw [readAgain_frame])
  | first reads unknown body => exact p.cache reads unknown (step body)

theorem Rule.respected {s : Symbol} (h : Rule visit n c s c') : R c c' := by
  cases h with
  | position => exact p.refl c
  | constant op defined taken | inject op named bound fits taken => exact taken.respected p
  | ref op inputs target fits => exact step target
  | same op inputs typed fits => exact inputs.respected p step
  | term plain inputs typed =>
    exact p.tail (p.trans (inputs.respected p step) (p.requiredAll _ _)) (.declared _ _ _) rfl rfl
  | distance op inputs typed =>
    exact p.tail (p.tail (inputs.respected p step) (.declared _ _ _) rfl rfl)
      (.declared _ _ _) rfl rfl
  | @nested d _ _ r _ _ _ _ _ parts octaves inputs typed again function =>
    have before := p.tail (inputs.respected p step) (.required d r) rfl rfl
    exact p.tail (p.trans (p.trans before (again.respected p step)) (function.respected p))
      (.called _ _ _ _) rfl rfl
  | cache op range inputs typed placed dispatch made =>
    exact p.tail (p.tail (dispatch.respected p step) (.required _ _) rfl rfl)
      (.declared _ _ _) rfl rfl

end

theorem emit_respected (p : Respected R) {g : Graph} {fuel : Nat} {s : Symbol}
    (h : Ran (emitWithin g fuel id) c s c') : R c c' := by
  induction fuel generalizing id c s c' with
  | zero => exact absurd h not_ran_throw
  | succ fuel ih =>
    obtain ⟨n, -, generated⟩ := emitWithin_ran h
    cases generated with
    | again known => exact p.change (.fold c _) rfl rfl
    | first unknown complete rule =>
      exact p.tail (p.trans (p.change (.fold c _) rfl rfl) (rule.respected p ih))
        (.remembered _ _ _ _) rfl rfl

theorem respected_reaches : Respected Reaches where
  refl _ := .refl
  trans h h' := h.trans h'
  change h _ _ := .single h
  cache reads unknown h :=
    (h.tail (.cacheClosed _ _ _ _ _)).head (.cacheOpened _ _ _ _ reads unknown)

theorem respected_stack : Respected fun c c' => c'.stack = c.stack where
  refl _ := rfl
  trans h h' := h'.trans h
  change _ stack _ := stack
  cache _ _ h := congrArg List.tail h

theorem reaches_requiredAll (rs : List Routine) (c : Context) : Reaches c (c.requiredAll rs) :=
  respected_reaches.requiredAll c rs

theorem FunctionOf.reaches {spec : Nested} {inputs : List Wire} {t : Template} {id : ScopeId}
    (h : FunctionOf spec inputs t c id c') : Reaches c c' := h.respected respected_reaches

section
variable {g : Graph} {fuel : Nat} {s : Symbol}

theorem emit_reaches (h : Ran (emitWithin g fuel id) c s c') : Reaches c c' :=
  emit_respected respected_reaches h

theorem emit_current (h : Ran (emitWithin g fuel id) c s c') : c'.current = c.current :=
  congrArg (List.headD · rootId) (emit_respected respected_stack h)

theorem Visits.reaches (h : Visits (emitWithin g fuel) ws c ss c') : Reaches c c' :=
  h.respected respected_reaches emit_reaches

theorem Visits.current (h : Visits (emitWithin g fuel) ws c ss c') : c'.current = c.current :=
  congrArg (List.headD · rootId) (h.respected respected_stack (emit_respected respected_stack))

theorem CacheOf.reaches {id : DispatchId}
    (h : CacheOf (emitWithin g fuel) n value reduction c id c') : Reaches c c' :=
  h.respected respected_reaches emit_reaches

theorem CacheOf.current {id : DispatchId}
    (h : CacheOf (emitWithin g fuel) n value reduction c id c') : c'.current = c.current :=
  congrArg (List.headD · rootId) (h.respected respected_stack (emit_respected respected_stack))

theorem Rule.reaches (h : Rule (emitWithin g fuel) n c s c') : Reaches c c' :=
  h.respected respected_reaches emit_reaches

theorem Rule.current (h : Rule (emitWithin g fuel) n c s c') : c'.current = c.current :=
  congrArg (List.headD · rootId) (h.respected respected_stack (emit_respected respected_stack))

theorem RootsRan.reaches {roots : List Root} (h : RootsRan g roots c c') : Reaches c c' := by
  induction h with
  | nil c => exact .refl
  | cons found ran _ ih =>
    exact .head (.fold _ _) ((emit_reaches ran).trans (.head (.rooted _ _ _ _) ih))

end

end

end Terrain.Compile
