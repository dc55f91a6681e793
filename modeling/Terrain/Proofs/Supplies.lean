import Mathlib
import Terrain.Proofs.Invariant
import Terrain.Proofs.Validation

/-!
# What a generation puts in the tables

Generating a node adds nodes to the current function, caches to the table of dispatches and keys to
the table of nested functions.  What it adds to the current function is needed there: it is the node
itself and what the node leads to without going through a cache, each of them once, with the locals
that they take.  A cache that it adds has a function of its own, which holds the value of the cache
with all that the value needs, and nothing else.

* `Graph.LocallyUses`    inputs, except those of caches;
* `Node.weight`          how many locals a node takes;
* `Supplied`             what comes with a node that a function holds;
* `Filled`               the function of a cache, once its value is generated;
* `Tally`                the locals of a function are those of the nodes that it holds;
* `Supplies`             a stretch of a generation that adds nothing but what is needed;
* `emit_supplies`        generating a node is such a stretch, and the function holds the node then;
* `RootsRan.supplies`    so are the outputs of a graph, one after the other.
-/

namespace Terrain

open List

open Relation (ReflTransGen TransGen)

def Node.isCache (n : Node) : Bool :=
  match n.op with
  | .cache _ => true
  | _ => false

/-- how many locals the function of a node declares for it -/
def Node.weight (n : Node) : Nat :=
  match n.op with
  | .position | .constant _ | .inject _ _ _ | .ref _ _ => 0
  | .cast target => if n.inputShape 0 = target then 0 else 1
  | .distance _ => 2
  | _ => 1

namespace Graph

/-- a node has an input that is generated in the same function: a cache is sampled instead -/
def LocallyUses (g : Graph) (a b : NodeId) : Prop :=
  ∃ n w, g.get? a = some n ∧ n.isCache = false ∧ some w ∈ n.inputs ∧ w.source = b

/-- what an output leads to in its own function -/
def LocallyReachable (g : Graph) (roots : List Root) (id : NodeId) : Prop :=
  ∃ r ∈ roots, ∃ start, r.node = some start ∧ ReflTransGen g.LocallyUses start id

/-- no node below leads back to itself -/
def AcyclicBelow (g : Graph) (id : NodeId) : Prop :=
  ∀ x, ReflTransGen g.Uses id x → ¬ TransGen g.Uses x x

def weight (g : Graph) (id : NodeId) : Nat := ((g.get? id).map Node.weight).getD 0

variable {g : Graph} {n : Node} {w : Wire}

theorem LocallyUses.uses {a b : NodeId} (h : g.LocallyUses a b) : g.Uses a b := by
  obtain ⟨n, w, found, -, input, same⟩ := h
  exact ⟨n, w, found, input, same⟩

theorem AcyclicBelow.uses {a b : NodeId} (h : g.AcyclicBelow a) (uses : g.Uses a b) :
    g.AcyclicBelow b := fun x leads => h x (.head uses leads)

theorem uses_iff (found : g.get? n.id = some n) (inputs : n.inputs = [some w]) {v : NodeId} :
    g.Uses n.id v ↔ v = w.source := by
  constructor
  · rintro ⟨n', w', found', input, rfl⟩
    cases found.symm.trans found'
    rw [inputs] at input
    cases mem_singleton.1 input
    rfl
  · rintro rfl
    exact ⟨n, w, found, by rw [inputs]; exact .head _, rfl⟩

theorem weight_eq {id : NodeId} (found : g.get? id = some n) : g.weight id = n.weight := by
  unfold weight
  rw [found]
  rfl

theorem weight_position (wf : g.WellFormed) : g.weight positionId = 0 := by
  cases found : g.get? positionId with
  | none => simp only [weight, found, Option.map_none, Option.getD_none]
  | some n =>
    have op := (wf.position found).2 rfl
    rw [weight_eq found]
    simp only [Node.weight, op]

end Graph

namespace Compile

open Kernel Hash Terrain.Graph

/-- the nodes that a function holds, the latest first -/
def Scope.keys (s : Scope) : List NodeId := s.symbols.map Prod.fst

/-! ## what nodes come with -/

/-- what comes with a node that a function holds: its inputs, the dispatch of a cache, and the
nested function that computes it -/
structure Supplied (c : Context) (i : ScopeId) (n : Node) : Prop where
  inputs : n.isCache = false → ∀ w, some w ∈ n.inputs → w.source ∈ (c.scope i).keys
  cache : n.isCache = true → n.id ∈ c.caches.map Prod.fst
  nested : ∀ r spec t, nestedParts n = some (r, spec, t) → spec.key ∈ c.nested.map Prod.fst

/-- the function of a cache holds the value of the cache, what it needs there, and the
world position -/
structure Filled (g : Graph) (c : Context) (p : NodeId × DispatchId) : Prop where
  value : ∀ v, g.Uses p.1 v → v ∈ (c.scope (c.entry p.2).scope).keys
  only : ∀ k ∈ (c.scope (c.entry p.2).scope).keys,
    k = positionId ∨ ∃ v, g.Uses p.1 v ∧ ReflTransGen g.LocallyUses v k

structure Tally (g : Graph) (c : Context) (j : ScopeId) : Prop where
  distinct : (c.scope j).keys.Nodup
  bound : (c.scope j).bound = ((c.scope j).keys.map g.weight).sum
  supplied : ∀ id ∈ (c.scope j).keys, ∀ n, g.get? id = some n → Supplied c j n

/-- what a function has got: nodes of one kind, each of them once and with what it comes with, their
locals, and some locals for a node to come -/
structure Gets (g : Graph) (here : NodeId → Prop) (w : Nat) (s : Scope) (c : Context)
    (j : ScopeId) : Prop where
  keys : ∀ k ∈ (c.scope j).keys, k ∈ s.keys ∨ here k ∧ ∀ n, g.get? k = some n → Supplied c j n
  distinct : s.keys.Nodup → (c.scope j).keys.Nodup
  bound : (c.scope j).bound + (s.keys.map g.weight).sum =
    s.bound + ((c.scope j).keys.map g.weight).sum + w

/-- functions hold the same nodes and declare as many locals -/
def Scope.Holds (s s' : Scope) : Prop := s'.keys = s.keys ∧ s'.bound = s.bound

/-- a stretch of a generation, begun and ended in the same function: that function gets nodes of one
kind, and the tables get caches and nested functions for nodes of another -/
structure Supplies (g : Graph) (here below : NodeId → Prop) (w : Nat) (c c' : Context) : Prop where
  reaches : Reaches c c'
  current : c'.current = c.current
  gets : Gets g here w (c.scope c.current) c' c.current
  others : ∀ i < c.scopes.size, i ≠ c.current → (c.scope i).Holds (c'.scope i)
  tally : ∀ i < c'.scopes.size, c.scopes.size ≤ i → (c'.scope i).hasPosition = true → Tally g c' i
  caches : ∀ p ∈ c'.caches, p ∈ c.caches ∨ c.scopes.size ≤ (c'.entry p.2).scope ∧ Filled g c' p ∧
    below p.1 ∧ ∃ n, g.get? p.1 = some n ∧ n.isCache = true
  nested : ∀ p ∈ c'.nested, p ∈ c.nested ∨ ∃ id n r spec t, below id ∧ g.get? id = some n ∧
    nestedParts n = some (r, spec, t) ∧ spec.key = p.1

section
variable {g : Graph} {here here' below below' : NodeId → Prop} {w w' : Nat} {c c' d : Context}
  {n : Node} {s : Scope} {i j : ScopeId}

theorem Grows.keys (h : Grows c c') (inside : i < c.scopes.size) :
    (c.scope i).keys ⊆ (c'.scope i).keys := ((h.scope i inside).symbols.map Prod.fst).subset

theorem Supplied.grows (h : Supplied c i n) (grows : Grows c c') (inside : i < c.scopes.size) :
    Supplied c' i n where
  inputs plain w input := grows.keys inside (h.inputs plain w input)
  cache isCache := (grows.caches.map Prod.fst).subset (h.cache isCache)
  nested r spec t parts := (grows.nested.map Prod.fst).subset (h.nested r spec t parts)

theorem supplied_of_inputs (plain : n.isCache = false) (none : nestedParts n = none)
    (inputs : ∀ w, some w ∈ n.inputs → w.source ∈ (c.scope i).keys) : Supplied c i n where
  inputs _ := inputs
  cache isCache := by
    rw [plain] at isCache
    cases isCache
  nested r spec t parts := by
    rw [none] at parts
    cases parts

theorem Node.kind_of_plain (plain : Node.isPlain n = true) :
    n.isCache = false ∧ nestedParts n = none ∧ n.weight = 1 := by
  unfold Node.isPlain at plain
  unfold Node.isCache nestedParts Terrain.Node.weight
  split at plain <;> simp_all

theorem Node.kind_of_nested {r : Routine} {spec : Nested} {t : Template}
    (parts : nestedParts n = some (r, spec, t)) : n.isCache = false ∧ n.weight = 1 := by
  unfold nestedParts at parts
  split at parts
  case h_1 op => simp only [Terrain.Node.weight, Node.isCache, op, true_and]
  case h_2 op => simp only [Terrain.Node.weight, Node.isCache, op, true_and]
  case h_3 => cases parts

theorem inputs_eq_nil (wf : g.WellFormed) (found : g.get? n.id = some n)
    (takes : ∀ k, n.op.Takes k → k = 0) (other : ∀ name s, n.op ≠ .ref name s) : n.inputs = [] := by
  rcases wf.takes found with count | ⟨name, s, w, op, -⟩
  · exact eq_nil_of_length_eq_zero (takes _ count)
  · exact absurd op (other name s)

theorem Filled.later {p : NodeId × DispatchId} (h : Filled g c p) (grows : Grows c c')
    (entry : p.2 < c.entries.size)
    (same : (c'.scope (c.entry p.2).scope).keys = (c.scope (c.entry p.2).scope).keys) :
    Filled g c' p := by
  have scope : (c'.entry p.2).scope = (c.entry p.2).scope := (grows.entry p.2 entry).scope
  refine ⟨?_, ?_⟩
  · intro v uses
    rw [scope, same]
    exact h.value v uses
  · intro k member
    rw [scope, same] at member
    exact h.only k member

theorem Tally.later (h : Tally g c j) (grows : Grows c c') (inside : j < c.scopes.size)
    (holds : (c.scope j).Holds (c'.scope j)) : Tally g c' j where
  distinct := holds.1 ▸ h.distinct
  bound := by rw [holds.2, h.bound, holds.1]
  supplied id member n found := by
    rw [holds.1] at member
    exact (h.supplied id member n found).grows grows inside

/-! ## what a function gets -/

theorem Gets.of_same (keys : (c.scope j).keys = s.keys) (bound : (c.scope j).bound = s.bound + w) :
    Gets g here w s c j where
  keys k member := .inl (keys ▸ member)
  distinct h := keys ▸ h
  bound := by
    rw [keys, bound]
    omega

theorem Gets.mono (h : Gets g here w s c j) (wider : ∀ k, here k → here' k) :
    Gets g here' w s c j :=
  ⟨fun k member => (h.keys k member).imp_right (.imp_left (wider k)), h.distinct, h.bound⟩

theorem Gets.trans (h : Gets g here w s c j) (h' : Gets g here w' (c.scope j) c' j)
    (grows : Grows c c') (inside : j < c.scopes.size) : Gets g here (w + w') s c' j where
  keys k member := by
    rcases h'.keys k member with old | new
    · exact (h.keys k old).imp_right (.imp_right fun supplied n found =>
        (supplied n found).grows grows inside)
    · exact .inr new
  distinct once := h'.distinct (h.distinct once)
  bound := by
    have first := h.bound
    have second := h'.bound
    omega

/-- a function that began with the world position, which takes no locals and comes with nothing -/
theorem Gets.tally (wf : g.WellFormed) (h : Gets g here 0 s c j) (keys : s.keys = [positionId])
    (bound : s.bound = 0) : Tally g c j := by
  refine ⟨h.distinct (by rw [keys]; exact nodup_singleton _), ?_, fun id member n found => ?_⟩
  · have sum := h.bound
    rwa [keys, bound, map_singleton, sum_singleton, weight_position wf, zero_add] at sum
  · rcases h.keys id member with old | ⟨-, supplied⟩
    · rw [keys] at old
      cases mem_singleton.1 old
      have op := (wf.position found).2 rfl
      have nil : n.inputs = [] := inputs_eq_nil wf (by rw [wf.id_eq found, found])
        (by rw [op]; exact fun _ h => h) (by simp [op])
      refine supplied_of_inputs (by simp only [Node.isCache, op])
        (by simp only [nestedParts, op]) ?_
      rw [nil]
      intro w input
      cases input
    · exact supplied n found

/-! ## stretches -/

section
variable (h : Supplies g here below w c c')
include h

theorem Supplies.mono (wider : ∀ k, here k → here' k)
    (wider' : ∀ k, below k → below' k) : Supplies g here' below' w c c' :=
  { h with
    gets := h.gets.mono wider
    caches := fun p member => (h.caches p member).imp_right fun ⟨new, filled, own, isCache⟩ =>
      ⟨new, filled, wider' _ own, isCache⟩
    nested := fun p member => (h.nested p member).imp_right fun ⟨id, n, r, spec, t, own, rest⟩ =>
      ⟨id, n, r, spec, t, wider' id own, rest⟩ }

theorem Supplies.inside (k : Kept c) : c.current < c'.scopes.size :=
  k.current.1.trans_le h.reaches.grows.scopes

theorem Supplies.trans (h' : Supplies g here below w' c' d) (k : Kept c) :
    Supplies g here below (w + w') c d := by
  have grows := h'.reaches.grows
  have k' := h.reaches.kept k
  -- a function that is newer than the current one stays as it is
  have newer {i : ScopeId} (inside : i < c'.scopes.size) (new : c.scopes.size ≤ i) :
      (c'.scope i).Holds (d.scope i) := by
    refine h'.others i inside fun same => ?_
    rw [same, h.current] at new
    exact absurd k.current.1 (not_lt.2 new)
  refine ⟨h.reaches.trans h'.reaches, h'.current.trans h.current, ?_, fun i inside other => ?_,
    fun i inside new position => ?_, fun p member => ?_, fun p member => ?_⟩
  · have second := h'.gets
    rw [h.current] at second
    exact h.gets.trans second grows (h.inside k)
  · have first := h.others i inside other
    have second := h'.others i (inside.trans_le h.reaches.grows.scopes) (h.current.symm ▸ other)
    exact ⟨second.1.trans first.1, second.2.trans first.2⟩
  · rcases lt_or_ge i c'.scopes.size with old | newest
    · rw [(grows.scope i old).placed] at position
      exact (h.tally i old new position).later grows old (newer old new)
    · exact h'.tally i inside newest position
  · rcases h'.caches p member with old | ⟨new, rest⟩
    · refine (h.caches p old).imp_right fun ⟨new, filled, rest⟩ => ?_
      have entry := (k'.caches p old).2
      refine ⟨by rwa [(grows.entry p.2 entry).scope], filled.later grows entry ?_, rest⟩
      exact (newer (k'.entryScope p.2 entry).1 new).1
    · exact .inr ⟨h.reaches.grows.scopes.trans new, rest⟩
  · rcases h'.nested p member with old | new
    · exact h.nested p old
    · exact .inr new

end

/-- a change that remembers nothing and leaves the tables alone, while the current function declares
some locals -/
structure Passive (w : Nat) (c c' : Context) : Prop where
  reaches : Reaches c c'
  current : c'.current = c.current
  size : c'.scopes.size = c.scopes.size
  keys : ∀ i < c.scopes.size, (c'.scope i).keys = (c.scope i).keys
  bound : ∀ i < c.scopes.size, (c'.scope i).bound =
    (c.scope i).bound + if i = c.current then w else 0
  caches : c'.caches = c.caches
  nested : c'.nested = c.nested

theorem Passive.supplies (p : Passive w c c') (k : Kept c) : Supplies g here below w c c' where
  reaches := p.reaches
  current := p.current
  gets := .of_same (p.keys _ k.current.1) ((p.bound _ k.current.1).trans (by rw [if_pos rfl]))
  others i inside other := ⟨p.keys i inside, (p.bound i inside).trans (by rw [if_neg other]; rfl)⟩
  tally i inside new := absurd (p.size ▸ inside) (not_lt.2 new)
  caches q member := .inl (p.caches ▸ member)
  nested q member := .inl (p.nested ▸ member)

theorem Passive.trans (p : Passive w c c') (q : Passive w' c' d) : Passive (w + w') c d where
  reaches := p.reaches.trans q.reaches
  current := q.current.trans p.current
  size := q.size.trans p.size
  keys i inside := (q.keys i (p.size ▸ inside)).trans (p.keys i inside)
  bound i inside := by
    rw [q.bound i (p.size ▸ inside), p.bound i inside, p.current]
    split <;> omega
  caches := q.caches.trans p.caches
  nested := q.nested.trans p.nested

theorem Reaches.passive (h : Reaches c c') (scopes : c'.scopes = c.scopes)
    (current : c'.current = c.current) (caches : c'.caches = c.caches)
    (nested : c'.nested = c.nested) :
    Passive 0 c c' := by
  have scope (i : ScopeId) : c'.scope i = c.scope i := by rw [Context.scope, scopes, Context.scope]
  exact ⟨h, current, congrArg Array.size scopes, fun i _ => by rw [scope],
    fun i _ => by rw [scope, ite_self]; rfl, caches, nested⟩

theorem Change.passive (h : Change c c') (f : Scope → Scope)
    (scopes : c'.scopes = (c.modifyScope i f).scopes) (keys : ∀ s, (f s).keys = s.keys)
    (bound : ∀ s, (f s).bound = s.bound + w) (own : i = c.current ∨ w = 0)
    (current : c'.current = c.current) (caches : c'.caches = c.caches)
    (nested : c'.nested = c.nested) :
    Passive w c c' := by
  have scope {j : ScopeId} (inside : j < c.scopes.size) :
      c'.scope j = if i = j then f (c.scope j) else c.scope j := by
    rw [← scope_modifyScope c i j f inside, Context.scope, scopes, Context.scope]
  refine ⟨.single h, current, (congrArg Array.size scopes).trans (size_modifyScope _ _ _),
    fun j inside => ?_, fun j inside => ?_, caches, nested⟩
  · rw [scope inside]
    split
    · exact keys _
    · rfl
  · rw [scope inside]
    rcases own with rfl | rfl
    · split
      case isTrue same => rw [bound, if_pos same.symm]
      case isFalse other => rw [if_neg (Ne.symm other)]; rfl
    · rw [ite_self]
      split
      · exact bound _
      · rfl

variable (c)

theorem passive_fold (token : List UInt8) : Passive 0 c (c.fold token) :=
  Reaches.passive (.single (.fold c token)) rfl rfl rfl rfl

theorem passive_requiredAll (rs : List Routine) : Passive 0 c (c.requiredAll rs) := by
  refine (reaches_requiredAll rs c).passive ?_ (current_requiredAll c rs) ?_ ?_ <;>
    rw [requiredAll_frame]

theorem passive_declared (shape : Shape) (e : Expr) : Passive 1 c (c.declared shape e) :=
  (Change.declared c shape e).passive _ rfl (fun _ => rfl) (fun _ => rfl) (.inl rfl) rfl rfl rfl

theorem passive_called (function : String) (shape : Shape) (args : List Symbol) :
    Passive 1 c (c.called function shape args) :=
  (Change.called c function shape args).passive _ rfl (fun _ => rfl) (fun _ => rfl)
    (.inl rfl) rfl rfl rfl

theorem passive_rooted (r : Root) (shape : Shape) (s : Symbol) : Passive 0 c (c.rooted r shape s) :=
  (Change.rooted c r shape s).passive
    (fun f => { f.push ⟨0, .store ("out_" ++ r.target) (.sym s)⟩ with
      args := f.args ++ [⟨"out_" ++ r.target, shape, true⟩] }) rfl (fun _ => rfl)
        (fun _ => rfl) (.inr rfl)
    rfl rfl rfl

variable {c}

theorem ConstantSlot.passive {id : NodeId} {v : Value} {slot : Nat}
    (h : ConstantSlot id v c slot c') : Passive 0 c c' := by
  have reaches := h.respected respected_reaches
  cases h <;> exact reaches.passive rfl rfl rfl rfl

theorem InjectedSlot.passive {name : String} {v : Value} {slot : Nat}
    (h : InjectedSlot name v c slot c') : Passive 0 c c' := by
  have reaches := h.respected respected_reaches
  cases h <;> exact reaches.passive rfl rfl rfl rfl

theorem Supplies.remembered (h : Supplies g here below n.weight c d) (k : Kept c)
    (found : g.get? n.id = some n) (supplied : Supplied d c.current n)
    (unknown : n.id ∉ (d.scope c.current).keys) (own : here n.id) (s : Symbol) :
    Supplies g here below 0 c (d.remembered c.current n.id s) := by
  have change : Change d (d.remembered c.current n.id s) := .remembered _ _ _ _
  have size : (d.remembered c.current n.id s).scopes.size = d.scopes.size := size_modifyScope _ _ _
  have scope {j : ScopeId} (other : j ≠ c.current) (inside : j < d.scopes.size) :
      (d.remembered c.current n.id s).scope j = d.scope j :=
    (scope_modifyScope d c.current j _ inside).trans (if_neg (Ne.symm other))
  have newer {j : ScopeId} (new : c.scopes.size ≤ j) : j ≠ c.current :=
    (k.current.1.trans_le new).ne'
  have inside := h.inside k
  have function : (d.remembered c.current n.id s).scope c.current =
      { d.scope c.current with symbols := (n.id, s) :: (d.scope c.current).symbols } :=
    (scope_modifyScope d c.current c.current _ inside).trans (if_pos rfl)
  have keys : ((d.remembered c.current n.id s).scope c.current).keys =
      n.id :: (d.scope c.current).keys := congrArg Scope.keys function
  have bound : ((d.remembered c.current n.id s).scope c.current).bound =
      (d.scope c.current).bound := by
    rw [function]
  refine ⟨h.reaches.tail change, h.current, ⟨?_, fun once => ?_, ?_⟩, fun i old other => ?_,
    fun i below new position => ?_, fun p member => ?_, h.nested⟩
  · rw [keys]
    refine forall_mem_cons.2 ⟨.inr ⟨own, fun m found' => ?_⟩, fun x member => ?_⟩
    · cases found.symm.trans found'
      exact supplied.grows change.grows inside
    · exact (h.gets.keys x member).imp_right
        (.imp_right fun supplied m found => (supplied m found).grows change.grows inside)
  · rw [keys]
    exact nodup_cons.2 ⟨unknown, h.gets.distinct once⟩
  · have sum := h.gets.bound
    rw [keys, bound, map_cons, sum_cons, weight_eq found]
    omega
  · rw [scope other (old.trans_le h.reaches.grows.scopes)]
    exact h.others i old other
  · rw [size] at below
    rw [scope (newer new) below] at position
    exact (h.tally i below new position).later change.grows below
      (by rw [scope (newer new) below]; exact ⟨rfl, rfl⟩)
  · refine (h.caches p member).imp_right fun ⟨new, filled, rest⟩ => ?_
    have entry := ((h.reaches.kept k).caches p member).2
    have place := ((h.reaches.kept k).entryScope p.2 entry).1
    exact ⟨new, filled.later change.grows entry (by rw [scope (newer new) place]), rest⟩

theorem FunctionOf.supplies {r : Routine} {spec : Nested} {inputs : List Wire} {t : Template}
    {id : ScopeId} (found : g.get? n.id = some n) (parts : nestedParts n = some (r, spec, t))
    (own : below n.id) (k : Kept c) (h : FunctionOf spec inputs t c id c') :
    Supplies g here below 0 c c' ∧ spec.key ∈ c'.nested.map Prod.fst := by
  have reaches := h.reaches
  have unplaced := h.unplaced
  cases h with
  | again known =>
    have passive := (passive_fold c ([Tag.scopeCall] ++ Token.str (c.scope id).name)).trans
      ((Change.deepened (c.fold _) id (c.currentScope.depth + 1) spec.key known).passive
        (fun s => if s.depth < c.currentScope.depth + 1 then
          { s with depth := c.currentScope.depth + 1 } else s)
        rfl (fun s => by split <;> rfl) (fun s => by split <;> rfl) (.inr rfl) rfl rfl rfl)
    exact ⟨passive.supplies k, mem_map_of_mem (f := Prod.fst) (mem_of_lookup known)⟩
  | first unknown =>
    have scope {j : ScopeId} (inside : j < c.scopes.size) :
        ((c.fold ([Tag.scope] ++ Token.str spec.key)).nestedAdded c.current spec inputs t).scope j =
          c.scope j := (scope_push c _ j).trans (if_neg (inside.ne))
    refine ⟨⟨reaches, rfl, ?_, fun i inside _ => ?_, fun i inside new position => ?_,
      fun p member => .inl member, fun p member => ?_⟩, .head _⟩
    · exact .of_same (by rw [scope k.current.1]) (by rw [scope k.current.1]; rfl)
    · rw [scope inside]
      exact ⟨rfl, rfl⟩
    · rw [unplaced i inside new] at position
      cases position
    · rcases mem_cons.1 member with rfl | old
      · exact .inr ⟨n.id, n, r, spec, t, own, found, parts, rfl⟩
      · exact .inl old

end

/-! ## generations -/

section
variable {g : Graph} {here below : NodeId → Prop} {c c' : Context} {fuel : Nat} {n : Node}

/-- a generation adds what the node needs, and the function holds the node then -/
def KeepsSupplies (g : Graph) (visit : Visit) : Prop :=
  ∀ {id c s c'}, Ran (visit id) c s c' → Kept c → g.AcyclicBelow id →
    Supplies g (ReflTransGen g.LocallyUses id) (ReflTransGen g.Uses id) 0 c c' ∧
      id ∈ (c'.scope c.current).keys

section
variable (step : KeepsSupplies g (emitWithin g fuel))
include step

theorem Visits.supplies {ws : List (Option Wire)} {ss : List Symbol}
    (h : Visits (emitWithin g fuel) ws c ss c') (k : Kept c)
    (acyclic : ∀ w, some w ∈ ws → g.AcyclicBelow w.source)
    (near : ∀ w, some w ∈ ws → ∀ x, ReflTransGen g.LocallyUses w.source x → here x)
    (under : ∀ w, some w ∈ ws → ∀ x, ReflTransGen g.Uses w.source x → below x) :
    Supplies g here below 0 c c' ∧ ∀ w, some w ∈ ws → w.source ∈ (c'.scope c.current).keys := by
  induction h with
  | nil c =>
    exact ⟨(Reaches.passive .refl rfl rfl rfl rfl).supplies k, fun _ member => by cases member⟩
  | @cons w ws c d c' s ss head tail ih =>
    obtain ⟨first, held⟩ := step head k (acyclic w (.head _))
    obtain ⟨rest, all⟩ := ih (first.reaches.kept k) (fun w member => acyclic w (.tail _ member))
      (fun w member => near w (.tail _ member))
      fun w member => under w (.tail _ member)
    rw [first.current] at all
    refine ⟨(first.mono (near w (.head _)) (under w (.head _))).trans rest k, ?_⟩
    intro v member
    rcases mem_cons.1 member with same | member
    · cases same
      exact rest.reaches.grows.keys (first.inside k) held
    · exact all v member

variable (found : g.get? n.id = some n) (acyclic : g.AcyclicBelow n.id) (k : Kept c)
include found acyclic k

theorem Visits.supplies_inputs {ss : List Symbol} (h : Visits (emitWithin g fuel) n.inputs c ss c')
    (plain : n.isCache = false) :
    Supplies g (TransGen g.LocallyUses n.id) (ReflTransGen g.Uses n.id) 0 c c' ∧
      ∀ w, some w ∈ n.inputs → w.source ∈ (c'.scope c.current).keys := by
  have uses (w : Wire) (input : some w ∈ n.inputs) : g.LocallyUses n.id w.source :=
    ⟨n, w, found, plain, input, rfl⟩
  exact h.supplies step k (fun w input => acyclic.uses (uses w input).uses)
    (fun w input x leads => .head' (uses w input) leads) fun w input x leads =>
      .head (uses w input).uses leads

theorem CacheOf.supplies (wf : g.WellFormed) {w : Wire} {reduction : Int}
    {id : DispatchId} (h : CacheOf (emitWithin g fuel) n w.source reduction c id c')
    (op : n.op = .cache reduction) (inputs : n.inputs = [some w]) :
    Supplies g here (ReflTransGen g.Uses n.id) 0 c c' ∧ n.id ∈ c'.caches.map Prod.fst := by
  have reaches := h.reaches
  have current := h.current
  have isCache : n.isCache = true := by simp only [Node.isCache, op]
  have uses : g.Uses n.id w.source := (uses_iff found inputs).2 rfl
  cases h with
  | @again reader id reads known =>
    refine ⟨(reaches.passive ?_ current ?_ ?_).supplies k, ?_⟩ <;> rw [readAgain_frame]
    exact mem_map_of_mem (f := Prod.fst) (mem_of_lookup known)
  | @first d reader s reads unknown body =>
    have k' := k.cacheOpened n reader reduction reads unknown
    obtain ⟨inner, held⟩ := step body k' (acyclic.uses uses)
    have grows := inner.reaches.grows
    have kd := inner.reaches.kept k'
    have closed : Change d (d.cacheClosed c.entries.size c.cacheName n.shape s) :=
      .cacheClosed _ _ _ _ _
    have final {i : ScopeId} (inside : i < d.scopes.size) : (d.scope i).Holds
        ((d.cacheClosed c.entries.size c.cacheName n.shape s).scope i) := by
      rw [scope_cacheClosed _ _ _ _ _ inside]
      split <;> exact ⟨rfl, rfl⟩
    have size : c.scopes.size < (c.cacheOpened n reader reduction).scopes.size :=
      Nat.lt_of_lt_of_eq (lt_add_one _) (Array.size_push _).symm
    have dispatch : c.entries.size < (c.cacheOpened n reader reduction).entries.size := by
      rw [size_cacheOpened]
      exact lt_add_one _
    -- the functions that were there before
    have same {i : ScopeId} (inside : i < c.scopes.size) : (c.scope i).Holds
        ((d.cacheClosed c.entries.size c.cacheName n.shape s).scope i) := by
      have later := final ((inside.trans size).trans_le grows.scopes)
      have before := inner.others i (inside.trans size) (inside.ne)
      rw [scope_cacheOpened_of_lt n reader reduction inside] at before
      exact ⟨later.1.trans before.1, later.2.trans before.2⟩
    -- the function of the cache
    have gets := inner.gets
    have start := scope_cacheOpened (c := c) n reader reduction
    have scope : (d.entry c.entries.size).scope = c.scopes.size := by
      rw [(grows.entry _ dispatch).scope, entry_cacheOpened n reduction (k.reader reads).1]
    have filled : Filled g d (n.id, c.entries.size) := by
      refine ⟨fun v used => ?_, fun x member => ?_⟩
      · rw [scope, (uses_iff found inputs).1 used]
        exact held
      · rw [scope] at member
        refine (gets.keys x member).imp (fun old => ?_) fun new => ⟨w.source, uses, new.1⟩
        rw [show (c.cacheOpened n reader reduction).current = c.scopes.size from rfl, start] at old
        exact mem_singleton.1 old
    have later {p : NodeId × DispatchId} (member : p ∈ d.caches) (h : Filled g d p) :
        Filled g (d.cacheClosed c.entries.size c.cacheName n.shape s) p := by
      have entry := (kd.caches p member).2
      exact h.later closed.grows entry (final (kd.entryScope p.2 entry).1).1
    have place {p : NodeId × DispatchId} (member : p ∈ d.caches) :
        ((d.cacheClosed c.entries.size c.cacheName n.shape s).entry p.2).scope =
            (d.entry p.2).scope :=
      (closed.grows.entry p.2 (kd.caches p member).2).scope
    have own : (n.id, c.entries.size) ∈ d.caches := grows.caches.subset (.head _)
    refine ⟨⟨reaches, current, ?_, fun i inside _ => same inside, ?_, ?_, ?_⟩,
      mem_map_of_mem (f := Prod.fst) own⟩
    · exact .of_same (same k.current.1).1 (same k.current.1).2
    · intro i inside new position
      have inside : i < d.scopes.size := Nat.lt_of_lt_of_eq inside (size_modifyScope _ _ _)
      rw [(closed.grows.scope i inside).placed] at position
      refine Tally.later ?_ closed.grows inside (final inside)
      rcases lt_or_eq_of_le new with newer | rfl
      · exact inner.tally i inside (((Array.size_push _).le).trans newer) position
      · exact gets.tally wf (congrArg Scope.keys start) (congrArg Scope.bound start)
    · intro p member
      rcases inner.caches p member with old | ⟨new, complete, leads, rest⟩
      · rcases mem_cons.1 old with rfl | old
        · exact .inr ⟨by rw [place own, scope], later own filled, .refl, n, found, isCache⟩
        · exact .inl old
      · refine .inr ⟨?_, later member complete, .head uses leads, rest⟩
        rw [place member]
        exact (size.le).trans new
    · intro p member
      refine (inner.nested p member).imp_right fun ⟨id, m, r, spec, t, leads, rest⟩ => ?_
      exact ⟨id, m, r, spec, t, .head uses leads, rest⟩

theorem Rule.supplies (wf : g.WellFormed) {s : Symbol} (h : Rule (emitWithin g fuel) n c s c') :
    Supplies g (TransGen g.LocallyUses n.id) (ReflTransGen g.Uses n.id) n.weight c c' ∧
      Supplied c' c.current n := by
  -- a node that comes with its inputs, and with locals that are declared behind them
  have plain {d : Context} {ss : List Symbol} {w : Nat}
      (visits : Visits (emitWithin g fuel) n.inputs c ss d)
      (p : Passive w d c') (kind : n.isCache = false ∧ nestedParts n = none ∧ n.weight = w) :
      Supplies g (TransGen g.LocallyUses n.id) (ReflTransGen g.Uses n.id) n.weight c c' ∧
        Supplied c' c.current n := by
    obtain ⟨other, none, rfl⟩ := kind
    obtain ⟨supplies, all⟩ := visits.supplies_inputs step found acyclic k other
    have both := supplies.trans (p.supplies (supplies.reaches.kept k)) k
    rw [zero_add] at both
    exact ⟨both, (supplied_of_inputs other none all).grows p.reaches.grows (supplies.inside k)⟩
  have leaf (p : Passive 0 c c') (takes : ∀ k, n.op.Takes k → k = 0)
      (other : ∀ name s, n.op ≠ .ref name s)
      (kind : n.isCache = false ∧ nestedParts n = none ∧ n.weight = 0) :=
    plain (inputs_eq_nil wf found takes other ▸ Visits.nil c) p kind
  have unchanged (d : Context) : Passive 0 d d := Reaches.passive .refl rfl rfl rfl rfl
  cases h with
  | position op placed =>
    exact leaf (unchanged c) (by rw [op]; exact fun _ h => h) (by simp [op])
      (by simp [Node.isCache, nestedParts, Terrain.Node.weight, op])
  | constant op defined taken | inject op named bound fits taken =>
    exact leaf taken.passive (by rw [op]; exact fun _ h => h) (by simp [op])
      (by simp [Node.isCache, nestedParts, Terrain.Node.weight, op])
  | @ref _ name shape w rest s op inputs target fits =>
    have single : n.inputs = [some w] := by
      rcases wf.takes found with count | ⟨name', s', w', -, only⟩
      · rw [op, inputs] at count
        cases count
      · rw [only] at inputs
        cases inputs
        exact only
    exact plain (single ▸ Visits.cons target (.nil c')) (unchanged c')
      (by simp [Node.isCache, nestedParts, Terrain.Node.weight, op])
  | same op inputs typed fits =>
    exact plain inputs (unchanged c')
      (by simp [Node.isCache, nestedParts, Terrain.Node.weight, op, fits])
  | @term d ss other inputs typed =>
    exact plain inputs ((passive_requiredAll d _).trans (passive_declared _ _ _))
      (Node.kind_of_plain other)
  | @distance d metric a b op inputs typed =>
    exact plain inputs ((passive_declared d _ _).trans (passive_declared _ _ _))
      (by simp [Node.isCache, nestedParts, Terrain.Node.weight, op])
  | @nested d d' e r spec x ss ss' callee parts octaves inputs typed again function =>
    obtain ⟨other, weight⟩ := Node.kind_of_nested parts
    obtain ⟨first, -⟩ := inputs.supplies_inputs step found acyclic k other
    have kd := first.reaches.kept k
    have required := first.trans ((passive_requiredAll d [r]).supplies kd) k
    have kr := required.reaches.kept k
    obtain ⟨second, all⟩ := again.supplies_inputs step found acyclic kr other
    have before := required.trans second k
    have kd' := before.reaches.kept k
    obtain ⟨called, known⟩ := function.supplies found parts (ReflTransGen.refl (r := g.Uses)) kd'
    have upTo := before.trans called k
    have call := passive_called e (e.scope callee).name spec.result ss'
    refine ⟨?_, ⟨fun _ w input => ?_, fun isCache => ?_, fun r' spec' t' parts' => ?_⟩⟩
    · rw [weight]
      exact upTo.trans (call.supplies (upTo.reaches.kept k)) k
    · have held := all w input
      rw [required.current] at held
      exact (called.reaches.grows.trans call.reaches.grows).keys (before.inside k) held
    · rw [other] at isCache
      cases isCache
    · cases parts.symm.trans parts'
      exact known
  | @cache d reduction w id output more op range inputs typed placed dispatch made =>
    obtain ⟨supplies, known⟩ := dispatch.supplies step found acyclic k wf op inputs
    have sampled := (passive_requiredAll d [.cacheIndex]).trans
      (passive_declared (d.required .cacheIndex) n.shape (sampleExpr output.buffer reduction))
    refine ⟨?_, ⟨fun plain => ?_, fun _ => ?_, fun r spec t parts => ?_⟩⟩
    · rw [show n.weight = 1 by simp only [Terrain.Node.weight, op]]
      exact supplies.trans (sampled.supplies (supplies.reaches.kept k)) k
    · simp [Node.isCache, op] at plain
    · exact known
    · simp [nestedParts, op] at parts

end

theorem emit_supplies (wf : g.WellFormed) (fuel : Nat) : KeepsSupplies g (emitWithin g fuel) := by
  induction fuel with
  | zero =>
    intro id c s c' ran
    exact absurd ran not_ran_throw
  | succ fuel ih =>
    intro id c s c' ran k acyclic
    obtain ⟨n, found, generated⟩ := emitWithin_ran ran
    obtain rfl := wf.id_eq found
    cases generated with
    | again known =>
      exact ⟨(passive_fold c _).supplies k, mem_map_of_mem (f := Prod.fst) (mem_of_lookup known)⟩
    | @first d _ unknown complete rule =>
      have folded := passive_fold c n.structureBytes
      obtain ⟨made, supplied⟩ := rule.supplies ih found acyclic (folded.reaches.kept k) wf
      have upTo := (folded.supplies k).trans made k
      rw [zero_add] at upTo
      refine ⟨(upTo.mono (fun _ => TransGen.to_reflTransGen) fun _ leads => leads).remembered k
        found supplied (fun held => ?_) .refl s, ?_⟩
      · rcases upTo.gets.keys n.id held with known | ⟨around, -⟩
        · have known := isSome_lookup.2 known
          rw [show (c.scope c.current).symbols.lookup n.id = none from unknown] at known
          cases known
        · exact acyclic n.id .refl (around.lift id fun _ _ => LocallyUses.uses)
      · refine mem_map_of_mem (f := Prod.fst) (a := (n.id, s)) ?_
        show _ ∈ ((d.remembered c.current n.id s).scope c.current).symbols
        unfold Context.remembered
        rw [scope_modifyScope d c.current c.current _ (upTo.inside k), if_pos rfl]
        exact .head _

theorem RootsRan.supplies (wf : g.WellFormed) {roots : List Root} (h : RootsRan g roots c c')
    (k : Kept c) (acyclic : ∀ r ∈ roots, ∀ id, r.node = some id → g.AcyclicBelow id) :
    Supplies g (g.LocallyReachable roots) (g.Reachable roots) 0 c c' ∧
      ∀ r ∈ roots, ∀ start, r.node = some start → start ∈ (c'.scope c.current).keys := by
  induction h with
  | nil c =>
    exact ⟨(Reaches.passive .refl rfl rfl rfl rfl).supplies k, fun _ member => by cases member⟩
  | @cons r rest n s c d c' found ran tail ih =>
    obtain ⟨start, node, there⟩ := Option.bind_eq_some_iff.1 found
    obtain rfl := wf.id_eq there
    have folded := passive_fold c (rootBytes r n)
    have rooted := passive_rooted d r n.shape s
    obtain ⟨made, held⟩ :=
      emit_supplies wf _ ran (folded.reaches.kept k) (acyclic r (.head _) n.id node)
    have before := (folded.supplies k).trans made k
    have first : Supplies g (g.LocallyReachable (r :: rest)) (g.Reachable (r :: rest)) 0 c
        (d.rooted r n.shape s) :=
      (before.trans (rooted.supplies (before.reaches.kept k)) k).mono
        (fun _ leads => ⟨r, .head _, n.id, node, leads⟩)
        fun _ leads => ⟨r, .head _, n.id, node, leads⟩
    obtain ⟨others, all⟩ := ih (first.reaches.kept k) fun r member => acyclic r (.tail _ member)
    have second : Supplies g (g.LocallyReachable (r :: rest)) (g.Reachable (r :: rest)) 0
        (d.rooted r n.shape s) c' :=
      others.mono (fun _ ⟨r', member, leads⟩ => ⟨r', .tail _ member, leads⟩)
        fun _ ⟨r', member, leads⟩ => ⟨r', .tail _ member, leads⟩
    refine ⟨first.trans second k, fun r' member start' node' => ?_⟩
    rcases mem_cons.1 member with rfl | member
    · cases node.symm.trans node'
      exact (rooted.reaches.grows.trans second.reaches.grows).keys (before.inside k) held
    · have there := all r' member start' node'
      rwa [first.current] at there

end

end Compile
end Terrain
