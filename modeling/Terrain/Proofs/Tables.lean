import Terrain.Proofs.Invariant

/-!
# Tables of a program

What the tables of a compilation list.  Every slot of the parameter buffer belongs to one constant
of the graph or to one name, and holds its value; the buffers of a dispatch are the outputs that it
writes, in the same order.

* `Slotted`           what the slots are for;
* `Buffered`          which buffers there are;
* `parsed_registered` both hold of the context that a compilation leaves;
* `parsed_scopes`     and it writes every function once.
-/

namespace Terrain.Compile

open Kernel Hash List

/-! ## parameters -/

/-- a node has a slot: a constant by itself, an injected value by its name -/
def Owns (c : Context) (n : Node) (k : Nat) : Prop :=
  match n.op with
  | .constant _ => (n.id, k) ∈ c.constantSlots
  | .inject name _ _ => (name, k) ∈ c.injectedSlots
  | _ => False

/-- a slot holds the value of a constant, or what a name is bound to, and every slot is that of a
node in `S` -/
structure Slotted (g : Graph) (S : NodeId → Prop) (o : Options) (c : Context) : Prop where
  options : c.options = o
  constant : ∀ p ∈ c.constantSlots, ∃ n v, g.get? p.1 = some n ∧ n.op = .constant v ∧
    c.parameters[p.2]? = some ⟨p.2, "", v.shape, v, false⟩
  injected : ∀ p ∈ c.injectedSlots, ∃ n shape fallback v, g.get? n.id = some n ∧
    n.op = .inject p.1 shape fallback ∧ (o.bindings.lookup p.1).or fallback = some v ∧
      c.parameters[p.2]? = some ⟨p.2, p.1, v.shape, v, true⟩
  owner : ∀ k < c.parameters.length, ∃ n, g.get? n.id = some n ∧ S n.id ∧ Owns c n k
  nodes : (c.constantSlots.map Prod.fst).Nodup
  names : (c.injectedSlots.map Prod.fst).Nodup
  apart : (c.constantSlots.map Prod.snd).Nodup

section
variable {g : Graph} {S : NodeId → Prop} {o : Options} {c c' : Context} {n : Node}
  {v : Value} {k : Nat}

theorem Slotted.same (h : Slotted g S o c) (t : SameTables c c') : Slotted g S o c' := by
  obtain ⟨options, constant, injected, owner, nodes, names, apart⟩ := h
  refine ⟨t.options.trans options, ?_, ?_, ?_, ?_, ?_, ?_⟩
  · rw [t.constantSlots, t.parameters]
    exact constant
  · rw [t.injectedSlots, t.parameters]
    exact injected
  · unfold Owns
    rw [t.parameters, t.constantSlots, t.injectedSlots]
    exact owner
  · rw [t.constantSlots]
    exact nodes
  · rw [t.injectedSlots]
    exact names
  · rw [t.constantSlots]
    exact apart

theorem Slotted.mono {T : NodeId → Prop} (h : Slotted g S o c) (wider : ∀ id, S id → T id) :
    Slotted g T o c :=
  { h with
    owner := fun k inside => by
      obtain ⟨n, found, own, owns⟩ := h.owner k inside
      exact ⟨n, found, wider _ own, owns⟩ }

/-- the parameter in the slot of a node -/
theorem Slotted.owned (h : Slotted g S o c) (found : g.get? n.id = some n) (owns : Owns c n k) :
    (∃ v, n.op = .constant v ∧ (n.id, k) ∈ c.constantSlots ∧
      c.parameters[k]? = some ⟨k, "", v.shape, v, false⟩) ∨
    ∃ name shape fallback v, n.op = .inject name shape fallback ∧ (name, k) ∈ c.injectedSlots ∧
      c.parameters[k]? = some ⟨k, name, v.shape, v, true⟩ := by
  unfold Owns at owns
  split at owns
  case h_1 v op =>
    obtain ⟨n', v', found', op', listed⟩ := h.constant _ owns
    cases found.symm.trans found'
    cases op.symm.trans op'
    exact .inl ⟨v, op, owns, listed⟩
  case h_2 name shape fallback op =>
    obtain ⟨-, -, -, v, -, -, -, listed⟩ := h.injected _ owns
    exact .inr ⟨name, shape, fallback, v, op, owns, listed⟩
  case h_3 => exact owns.elim

theorem Owns.grows (h : Owns c n k) (grows : Grows c c') : Owns c' n k := by
  unfold Owns at h ⊢
  split at h
  case h_1 => exact grows.constantSlots.subset h
  case h_2 => exact grows.injectedSlots.subset h
  case h_3 => exact h

theorem getElem?_append_of_some {α : Type} {xs ys : List α} {k : Nat} {x : α}
    (h : xs[k]? = some x) : (xs ++ ys)[k]? = some x := by
  rw [List.getElem?_append_left (List.getElem?_eq_some_iff.1 h).1]
  exact h

section
variable (h : Slotted g S o c) (found : g.get? n.id = some n) (own : S n.id)
include h found own

/-- a new slot is that of a new node -/
theorem Slotted.owner_added (grows : Grows c c') (owns : Owns c' n c.parameters.length)
    (length : c'.parameters.length = c.parameters.length + 1) :
    ∀ k < c'.parameters.length, ∃ n, g.get? n.id = some n ∧ S n.id ∧ Owns c' n k := by
  intro k inside
  rcases lt_or_eq_of_le (Nat.le_of_lt_succ (length ▸ inside)) with old | rfl
  · obtain ⟨n, found, own, owns⟩ := h.owner k old
    exact ⟨n, found, own, owns.grows grows⟩
  · exact ⟨n, found, own, owns⟩

theorem Slotted.constantAdded (op : n.op = .constant v)
    (unknown : c.constantSlots.lookup n.id = none) : Slotted g S o (c.constantAdded n.id v) where
  options := h.options
  constant p member := by
    rcases mem_cons.1 member with rfl | member
    · exact ⟨n, v, found, op, getElem?_concat_length⟩
    · obtain ⟨m, w, found', op', listed⟩ := h.constant p member
      exact ⟨m, w, found', op', getElem?_append_of_some listed⟩
  injected p member := by
    obtain ⟨m, shape, fallback, w, found', op', bound, listed⟩ := h.injected p member
    exact ⟨m, shape, fallback, w, found', op', bound, getElem?_append_of_some listed⟩
  owner := h.owner_added found own (Change.constantAdded c n.id v unknown).grows
    (by rw [Owns, op]; exact .head _) length_append
  nodes := nodup_keys_cons unknown h.nodes
  names := h.names
  apart := by
    refine nodup_cons.2 ⟨fun member => ?_, h.apart⟩
    obtain ⟨p, old, same⟩ := mem_map.1 member
    obtain ⟨_, _, _, _, listed⟩ := h.constant p old
    exact (List.getElem?_eq_some_iff.1 listed).1.ne same

theorem Slotted.injectedAdded {name : String} {shape : Shape} {fallback : Option Value}
    (op : n.op = .inject name shape fallback)
    (bound : (c.options.bindings.lookup name).or fallback = some v)
    (unknown : c.injectedSlots.lookup name = none) : Slotted g S o (c.injectedAdded name v) where
  options := h.options
  constant p member := by
    obtain ⟨m, w, found', op', listed⟩ := h.constant p member
    exact ⟨m, w, found', op', getElem?_append_of_some listed⟩
  injected p member := by
    rcases mem_cons.1 member with rfl | member
    · exact ⟨n, shape, fallback, v, found, op, h.options ▸ bound, getElem?_concat_length⟩
    · obtain ⟨m, shape', fallback', w, found', op', bound', listed⟩ := h.injected p member
      exact ⟨m, shape', fallback', w, found', op', bound', getElem?_append_of_some listed⟩
  owner := h.owner_added found own (Change.injectedAdded c name v unknown).grows
    (by rw [Owns, op]; exact .head _) length_append
  nodes := h.nodes
  names := nodup_keys_cons unknown h.names
  apart := h.apart

end

end

/-! ## buffers -/

/-- the output that is written to a buffer -/
def outputOf (b : Buffer) : Output := ⟨b.name, b.shape, b.symbol⟩

/-- every buffer is that of an output, buffers are bound in the order of their table, and a cache is
over two axes -/
structure Buffered (c : Context) : Prop where
  outputs : ∀ d < c.entries.size,
    (c.buffers.filter (·.dispatch == (c.entry d).name)).map outputOf = (c.entry d).outputs
  owner : ∀ b ∈ c.buffers, ∃ d < c.entries.size, b.dispatch = (c.entry d).name ∧
    b.dims = (c.entry d).dims ∧ b.reduction = (c.entry d).reduction
  binding : ∀ (k : Nat) (b : Buffer), c.buffers[k]? = some b → b.binding = k
  flat : ∀ d < c.entries.size, 0 < d → (c.entry d).dims = .two

section
variable {c c' : Context}

section
variable (h : Buffered c)
include h

theorem Buffered.same (buffers : c'.buffers = c.buffers) (size : c'.entries.size = c.entries.size)
    (entry : ∀ d < c.entries.size, ∃ k rs,
      c'.entry d = { c.entry d with depth := k, reads := rs }) : Buffered c' where
  outputs d inside := by
    rw [size] at inside
    obtain ⟨k, rs, same⟩ := entry d inside
    rw [buffers, same]
    exact h.outputs d inside
  owner b member := by
    rw [buffers] at member
    obtain ⟨d, inside, owned⟩ := h.owner b member
    obtain ⟨k, rs, same⟩ := entry d inside
    refine ⟨d, size ▸ inside, ?_⟩
    rw [same]
    exact owned
  binding := buffers ▸ h.binding
  flat d inside positive := by
    rw [size] at inside
    obtain ⟨k, rs, same⟩ := entry d inside
    rw [same]
    exact h.flat d inside positive

theorem Buffered.of_entries (buffers : c'.buffers = c.buffers)
    (entries : c'.entries = c.entries) : Buffered c' := by
  refine h.same buffers (by rw [entries]) fun d _ => ⟨(c.entry d).depth, (c.entry d).reads, ?_⟩
  unfold Context.entry
  rw [entries]

theorem Buffered.readAgain (reader id : DispatchId) : Buffered (c.readAgain reader id) := by
  refine h.same (by rw [readAgain_frame]) (size_readAgain c reader id) fun d inside => ?_
  obtain ⟨k, same⟩ := entry_readAgain c reader id inside
  exact ⟨k, _, same⟩

/-- a new dispatch has a new name, so that no buffer is its own yet -/
theorem Buffered.cacheOpened (k : Kept c) {n : Node} {reader : DispatchId}
    (reduction : Int) (reads : c.currentScope.dispatch = some reader)
    (unknown : c.caches.lookup n.id = none) : Buffered (c.cacheOpened n reader reduction) := by
  have kept := (Change.cacheOpened c n reader reduction reads unknown).kept k
  have size := size_cacheOpened c n reader reduction
  have old (d : DispatchId) (inside : d < c.entries.size) :=
    entry_cacheOpened_of_lt (c := c) n reader reduction inside
  have new := entry_cacheOpened (c := c) n reduction (k.reader reads).1
  refine ⟨fun d inside => ?_, fun b member => ?_, h.binding, fun d inside positive => ?_⟩
  · rcases lt_or_eq_of_le (Nat.le_of_lt_succ (size ▸ inside)) with before | rfl
    · rw [old d before]
      exact h.outputs d before
    · have none : c.buffers.filter
          (·.dispatch == ((c.cacheOpened n reader reduction).entry c.entries.size).name) = [] := by
        refine filter_eq_nil_iff.2 fun b member same => ?_
        obtain ⟨d, before, owned, -⟩ := h.owner b member
        have names : ((c.cacheOpened n reader reduction).entry d).name =
            ((c.cacheOpened n reader reduction).entry c.entries.size).name := by
          rw [old d before, ← beq_iff_eq.1 same, owned]
        exact before.ne
          (kept.distinct d (size ▸ Nat.lt_succ_of_lt before) _ inside names)
      show (c.buffers.filter _).map outputOf = _
      rw [none, new]
      rfl
  · obtain ⟨d, before, owned⟩ := h.owner b member
    refine ⟨d, size ▸ Nat.lt_succ_of_lt before, ?_⟩
    rw [old d before]
    exact owned
  · rcases lt_or_eq_of_le (Nat.le_of_lt_succ (size ▸ inside)) with before | rfl
    · rw [old d before]
      exact h.flat d before positive
    · rw [new]

theorem Buffered.outputAdded {id : DispatchId} (inside : id < c.entries.size)
    (distinct : ∀ d < c.entries.size, (c.entry id).name = (c.entry d).name → id = d)
    (target : String) (shape : Shape) : Buffered (c.outputAdded id target shape) := by
  have size : (c.outputAdded id target shape).entries.size = c.entries.size :=
    size_modifyEntry _ _ _
  have entry (d : DispatchId) (there : d < c.entries.size) :=
    entry_outputAdded c id target shape there
  refine ⟨fun d there => ?_, fun b member => ?_, fun k b listed => ?_, fun d there positive => ?_⟩
  · rw [size] at there
    rw [entry d there]
    show ((c.buffers ++ [_]).filter fun b => Buffer.dispatch b == (c.entry d).name).map outputOf =
      ite _ _ _
    rw [filter_append, map_append, h.outputs d there]
    by_cases own : id = d
    · subst own
      rw [if_pos rfl, filter_cons_of_pos (by exact beq_self_eq_true _)]
      rfl
    · rw [if_neg own, filter_cons_of_neg]
      · exact append_nil _
      · exact fun same => own (distinct d there (beq_iff_eq.1 same))
  · rcases mem_append.1 member with member | member
    · obtain ⟨d, there, owned⟩ := h.owner b member
      refine ⟨d, size ▸ there, ?_⟩
      rw [entry d there]
      exact owned
    · obtain rfl := mem_singleton.1 member
      refine ⟨id, size ▸ inside, ?_⟩
      rw [entry id inside]
      exact ⟨rfl, rfl, rfl⟩
  · have there := Nat.lt_of_lt_of_eq (List.getElem?_eq_some_iff.1 listed).1 length_append
    rcases lt_or_eq_of_le (Nat.le_of_lt_succ there) with before | rfl
    · exact h.binding k b ((List.getElem?_append_left before).symm.trans listed)
    · cases getElem?_concat_length.symm.trans listed
      rfl
  · rw [size] at there
    rw [entry d there]
    exact h.flat d there positive

end

end

/-! ## compilations -/

/-- the tables of parameters and of buffers -/
structure Registered (g : Graph) (S : NodeId → Prop) (o : Options) (c : Context) : Prop where
  slotted : Slotted g S o c
  buffered : Buffered c

section
variable {g : Graph} {S : NodeId → Prop} {o : Options} {c c' : Context}

section
variable (h : Registered g S o c)
include h

theorem Registered.same (t : SameTables c c') (buffers : c'.buffers = c.buffers)
    (entries : c'.entries = c.entries) : Registered g S o c' :=
  ⟨h.slotted.same t, h.buffered.of_entries buffers entries⟩

theorem Registered.cacheClosed (k : Kept c) {id : DispatchId} (inside : id < c.entries.size)
    (name : String) (shape : Shape) (s : Symbol) :
    Registered g S o (c.cacheClosed id name shape s) := by
  have left : Buffered { c.lined [⟨0, .store "out_value" (.sym s)⟩] with stack := c.stack.tail } :=
    h.buffered.of_entries rfl rfl
  exact ⟨h.slotted.same ⟨rfl, rfl, rfl, rfl⟩,
    left.outputAdded inside (k.distinct id inside) name shape⟩

theorem Registered.rooted (k : Kept c) (r : Root) (shape : Shape) (s : Symbol) :
    Registered g S o (c.rooted r shape s) := by
  have stored : Buffered (c.stored r.target shape s) := h.buffered.of_entries rfl rfl
  exact ⟨h.slotted.same ⟨rfl, rfl, rfl, rfl⟩,
    stored.outputAdded k.main.1 (k.distinct 0 k.main.1) r.target shape⟩

theorem Registered.readAgain (reader id : DispatchId) : Registered g S o (c.readAgain reader id) :=
  ⟨h.slotted.same (sameTables_readAgain c reader id), h.buffered.readAgain reader id⟩

end

theorem preserved_registered (g : Graph) (o : Options) (done : List NodeId) :
    Preserved g done (Registered g (· ∈ done) o) fun _ _ _ _ => True where
  idle idle h := h.same ⟨idle.options, idle.parameters, idle.constantSlots, idle.injectedSlots⟩
    idle.buffers idle.entries
  later _ _ _ _ _ _ := trivial
  start _ _ := trivial
  constant held stands op taken _ := by
    cases taken with
    | again known => exact ⟨held.fact, trivial⟩
    | first unknown =>
      exact ⟨⟨held.fact.slotted.constantAdded stands.found stands.member op unknown,
        held.fact.buffered.of_entries rfl rfl⟩, trivial⟩
  inject held stands op bound _ taken _ := by
    cases taken with
    | again known => exact ⟨held.fact, trivial⟩
    | first unknown =>
      exact ⟨⟨held.fact.slotted.injectedAdded stands.found stands.member op bound unknown,
        held.fact.buffered.of_entries rfl rfl⟩, trivial⟩
  ref _ _ _ _ _ := trivial
  same _ _ _ _ _ := trivial
  term held _ _ _ _ _ _ made _ := ⟨made ▸ held.fact.same ⟨rfl, rfl, rfl, rfl⟩ rfl rfl, trivial⟩
  distance held _ _ _ _ _ made made' _ :=
    ⟨made' ▸ made ▸ held.fact.same ⟨rfl, rfl, rfl, rfl⟩ rfl rfl, trivial⟩
  nested held _ _ _ _ _ _ function made _ := by
    subst made
    cases function with
    | again known | first unknown => exact ⟨held.fact.same ⟨rfl, rfl, rfl, rfl⟩ rfl rfl, trivial⟩
  again {_ _ reader id} held _ _ _ _ := held.fact.readAgain reader id
  opened {_ _ reduction _ _} held _ _ _ reads unknown _ :=
    ⟨held.fact.slotted.same ⟨rfl, rfl, rfl, rfl⟩,
      held.fact.buffered.cacheOpened held.kept reduction reads unknown⟩
  closed {c _ n _ _ id s} held _ _ _ _ inside _ _ _ _ made _ :=
    made ▸ held.fact.cacheClosed held.kept inside (c.entry id).name n.shape s
  sampled held _ _ _ _ _ _ _ made _ := ⟨made ▸ held.fact.same ⟨rfl, rfl, rfl, rfl⟩ rfl rfl, trivial⟩

theorem registered_opened (g : Graph) (S : NodeId → Prop) (o : Options) :
    Registered g S o (Context.opened o) := by
  refine ⟨⟨rfl, fun _ => nofun, fun _ => nofun, fun _ => nofun, nodup_nil, nodup_nil, nodup_nil⟩,
    ⟨fun d inside => ?_, fun _ => nofun, fun _ _ => nofun, fun d inside positive => ?_⟩⟩
  · obtain rfl := Nat.lt_one_iff.1 inside
    rfl
  · exact absurd (Nat.lt_one_iff.1 inside) positive.ne'

theorem parsed_registered {roots : List Root} (wf : g.WellFormed) (h : g.parsed roots o = .ok c) :
    Registered g (fun _ => True) o c := by
  obtain ⟨done, -, -, -, tables⟩ := parsed_holds (I := fun done _ => Registered g (· ∈ done) o)
    (P := fun _ _ _ _ _ => True) wf h (fun _ => registered_opened g _ o)
    (fun done _ _ => preserved_registered g o done)
    fun _ _ {_ r n s _} held _ _ _ _ => held.fact.rooted held.kept r n.shape s
  exact ⟨tables.slotted.mono fun _ _ => trivial, tables.buffered⟩

theorem Change.found (h : Change c c') (all : c.found = List.range c.scopes.size) :
    c'.found = List.range c'.scopes.size := by
  have size (i : ScopeId) (f : Scope → Scope) (d : Context) (same : d.scopes = c.scopes) :
      (d.modifyScope i f).scopes.size = c.scopes.size := by
    rw [size_modifyScope, same]
  have pushed (s : Scope) : c.found ++ [c.scopes.size] = List.range (c.scopes.push s).size := by
    rw [Array.size_push, range_succ, all]
  cases h with
  | readAgain node reader id reads known =>
    rw [readAgain_frame]
    exact all
  | cacheOpened | nestedAdded => exact pushed _
  | fold | required | constantAdded | injectedAdded => exact all
  | declared | remembered | deepened | called | cacheClosed | rooted =>
    exact all.trans (congrArg List.range (size _ _ _ rfl).symm)

theorem Reaches.found (h : Reaches c c') (all : c.found = List.range c.scopes.size) :
    c'.found = List.range c'.scopes.size := by
  induction h with
  | refl => exact all
  | tail _ change ih => exact change.found ih

theorem parsed_scopes {roots : List Root} (h : g.parsed roots o = .ok c) :
    c.writtenScopes.Perm (List.range c.scopes.size) := by
  obtain ⟨-, -, d, ran, rfl, -⟩ := parsed_ok h
  exact ran.reaches.found rfl ▸ mergeSort_perm _ _

end

end Terrain.Compile
