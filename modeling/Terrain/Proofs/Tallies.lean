import Terrain.Proofs.Inlined
import Terrain.Proofs.Supplies
import Terrain.Proofs.WellScoped

/-!
# Every node is generated once

A function generates the nodes that its outputs lead to, each of them once: it declares as many
locals as those nodes take.  A cache is a node of the functions that sample it, and its value is
generated in a function of its own, which all of them share.  A nested function is shared by all
nodes of one key.

* `Numbered`            dispatches and nested functions are as many as the rows of their tables;
* `GeneratesOnce`       a function that generates the nodes of a kind, each of them once;
* `Tallies`             the tallies of a compilation, told by the graph;
* `compile_tallies`     every compilation has them.
-/

namespace Terrain

open List

open Relation (ReflTransGen TransGen)

variable {roots : List Root}

/-- is the node computed by a nested function? -/
def Node.isNested (n : Node) : Bool :=
  match n.op with
  | .fractal _ _ | .cellular _ _ => true
  | _ => false

namespace Compile

open Kernel Hash

theorem nestedParts_iff {n : Node} {key : String} :
    (∃ r spec t, nestedParts n = some (r, spec, t) ∧ spec.key = key) ↔
      n.isNested = true ∧ nestedKey n = key := by
  unfold nestedParts
  split
  case h_1 op => simp [Terrain.Node.isNested, op]
  case h_2 op => simp [Terrain.Node.isNested, op]
  case h_3 fractal cellular =>
    have other : n.isNested = false := by
      unfold Terrain.Node.isNested
      split
      case h_1 kind octaves op => exact absurd op (fractal kind octaves)
      case h_2 metric feature op => exact absurd op (cellular metric feature)
      case h_3 => rfl
    simp [other]

/-! ## rows of tables -/

/-- how many functions belong to no dispatch -/
def Context.unplaced (c : Context) : Nat :=
  (List.range c.scopes.size).countP fun i => !(c.scope i).hasPosition

structure Numbered (c : Context) : Prop where
  caches : (c.caches.map Prod.fst).Nodup
  entries : c.entries.size = c.caches.length + 1
  nested : (c.nested.map Prod.fst).Nodup
  unplaced : c.unplaced = c.nested.length

section
variable {c c' : Context}

theorem countP_unplaced (grows : Grows c c') :
    (List.range c.scopes.size).countP (fun i => !(c'.scope i).hasPosition) = c.unplaced := by
  refine countP_congr fun i member => ?_
  rw [(grows.scope i (mem_range.1 member)).placed]

theorem unplaced_same (grows : Grows c c') (size : c'.scopes.size = c.scopes.size) :
    c'.unplaced = c.unplaced := by
  rw [← countP_unplaced grows, ← size]
  rfl

theorem unplaced_succ (grows : Grows c c') (size : c'.scopes.size = c.scopes.size + 1) :
    c'.unplaced = c.unplaced + if (c'.scope c.scopes.size).hasPosition then 0 else 1 := by
  unfold Context.unplaced
  rw [size, range_succ, countP_append, countP_unplaced grows]
  cases position : (c'.scope c.scopes.size).hasPosition <;> simp [position, Context.unplaced]

theorem Numbered.of_grows (h : Numbered c) (grows : Grows c c')
    (scopes : c'.scopes.size = c.scopes.size) (entries : c'.entries.size = c.entries.size)
    (caches : c'.caches = c.caches) (nested : c'.nested = c.nested) : Numbered c' where
  caches := caches ▸ h.caches
  entries := by rw [entries, caches, h.entries]
  nested := nested ▸ h.nested
  unplaced := by rw [unplaced_same grows scopes, nested, h.unplaced]

theorem Change.numbered (h : Change c c') (numbered : Numbered c) : Numbered c' := by
  have grows := h.grows
  cases h with
  | nestedAdded caller spec inputs t unknown =>
    refine ⟨numbered.caches, numbered.entries, nodup_keys_cons unknown numbered.nested, ?_⟩
    rw [unplaced_succ grows (Array.size_push _), scope_nestedAdded, numbered.unplaced]
    rfl
  | cacheOpened n reader reduction reads unknown =>
    refine ⟨nodup_keys_cons unknown numbered.caches, ?_, numbered.nested, ?_⟩
    · rw [size_cacheOpened, numbered.entries]
      rfl
    · rw [unplaced_succ grows (Array.size_push _), scope_cacheOpened, numbered.unplaced]
      rfl
  | fold token | required r | constantAdded id v unknown | injectedAdded name v unknown =>
    exact numbered.of_grows grows rfl rfl rfl rfl
  | declared shape e | called function shape args | remembered id node s
  | deepened id depth key known =>
    exact numbered.of_grows grows (size_modifyScope _ _ _) rfl rfl rfl
  | readAgain node reader id reads known =>
    refine numbered.of_grows grows ?_ (size_readAgain c reader id) ?_ ?_ <;> rw [readAgain_frame]
  | cacheClosed id name shape s | rooted r shape s =>
    exact numbered.of_grows grows (size_modifyScope _ _ _) (size_modifyEntry _ _ _) rfl rfl

theorem Reaches.numbered (h : Reaches c c') (numbered : Numbered c) : Numbered c' := by
  induction h with
  | refl => exact numbered
  | tail _ change ih => exact change.numbered ih

theorem numbered_opened (o : Options) : Numbered (Context.opened o) :=
  ⟨nodup_nil, rfl, nodup_nil, rfl⟩

end

/-! ## what the tables hold in the end -/

section
variable {g : Graph} {c : Context} {j : ScopeId}

theorem Tally.closed (t : Tally g c j) {a b : NodeId} (held : a ∈ (c.scope j).keys)
    (leads : ReflTransGen g.LocallyUses a b) : b ∈ (c.scope j).keys := by
  induction leads with
  | refl => exact held
  | tail _ uses ih =>
    obtain ⟨n, w, found, plain, input, rfl⟩ := uses
    exact (t.supplied _ ih n found).inputs plain w input

/-- a function generates the nodes of a kind and, if anything else, the world position: each of them
once, and with the locals that it takes -/
structure GeneratesOnce (g : Graph) (s : Scope) (D : NodeId → Prop) : Prop where
  all : ∀ id, D id → id ∈ s.keys
  only : ∀ id ∈ s.keys, id = Graph.positionId ∨ D id
  once : s.keys.Nodup
  locals : ∃ N : Finset NodeId, (∀ id, id ∈ N ↔ D id) ∧ s.bound = ∑ id ∈ N, g.weight id

theorem Tally.generatesOnce (wf : g.WellFormed) (t : Tally g c j) {D : NodeId → Prop}
    (only : ∀ id ∈ (c.scope j).keys, id = Graph.positionId ∨ D id)
    (all : ∀ id, D id → id ∈ (c.scope j).keys) : GeneratesOnce g (c.scope j) D := by
  classical
  refine ⟨all, only, t.distinct, (c.scope j).keys.toFinset.filter D, fun id => ?_, ?_⟩
  · rw [Finset.mem_filter, mem_toFinset]
    exact ⟨fun h => h.2, fun h => ⟨all id h, h⟩⟩
  · rw [t.bound, ← sum_toFinset g.weight t.distinct, Finset.sum_filter_of_ne]
    intro id member heavy
    refine (only id (mem_toFinset.1 member)).resolve_left fun same => heavy ?_
    rw [same, Graph.weight_position wf]

/-- the state of a compilation that has succeeded -/
structure Settled (g : Graph) (roots : List Root) (c : Context) : Prop where
  kept : Kept c
  numbered : Numbered c
  tally : ∀ j < c.scopes.size, (c.scope j).hasPosition = true → Tally g c j
  starts : ∀ r ∈ roots, ∀ start, r.node = some start → start ∈ (c.scope rootId).keys
  root : ∀ id ∈ (c.scope rootId).keys, id = Graph.positionId ∨ g.LocallyReachable roots id
  caches : ∀ p ∈ c.caches, Filled g c p ∧ g.Reachable roots p.1 ∧
    ∃ n, g.get? p.1 = some n ∧ n.isCache = true
  nested : ∀ p ∈ c.nested, ∃ id n r spec t, g.Reachable roots id ∧ g.get? id = some n ∧
    nestedParts n = some (r, spec, t) ∧ spec.key = p.1

theorem RootsRan.bound {d : Context} (h : RootsRan g roots c d) :
    ∀ r ∈ roots, ∀ id, r.node = some id → (g.get? id).isSome = true := by
  induction h with
  | nil => exact fun r member => by cases member
  | @cons r rest n s c d c' found ran tail ih =>
    refine forall_mem_cons.2 ⟨fun id node => ?_, ih⟩
    rw [node] at found
    exact Option.isSome_iff_exists.2 ⟨n, found⟩

theorem settled_of_parsed (wf : g.WellFormed) {o : Options} (h : g.parsed roots o = .ok c) :
    Settled g roots c := by
  obtain ⟨-, valid, d, ran, rfl, -⟩ := parsed_ok h
  have acyclic : ∀ r ∈ roots, ∀ id, r.node = some id → g.AcyclicBelow id :=
    fun r member id node x leads => (valid_of_validate wf ran.bound valid).acyclic
      ⟨r, member, id, node, leads⟩
  have k := kept_opened o
  obtain ⟨supplies, starts⟩ := ran.supplies wf k acyclic
  have numbered := ran.reaches.numbered (numbered_opened o)
  refine
    { kept := kept_finished (ran.reaches.kept k)
      numbered := ⟨numbered.caches, numbered.entries, numbered.nested, numbered.unplaced⟩
      tally := fun j inside position => ?_
      starts
      root := fun id member => ?_
      caches := fun p member => ?_
      nested := fun p member => ?_ }
  · have tally : Tally g d j := by
      rcases Nat.eq_zero_or_pos j with rfl | positive
      · exact supplies.gets.tally wf rfl rfl
      · exact supplies.tally j inside positive position
    refine ⟨tally.distinct, tally.bound, fun id member n found => ?_⟩
    have supplied := tally.supplied id member n found
    exact ⟨supplied.inputs, supplied.cache, supplied.nested⟩
  · rcases supplies.gets.keys id member with start | ⟨leads, -⟩
    · exact .inl (mem_singleton.1 start)
    · exact .inr leads
  · obtain ⟨-, filled, rest⟩ := (supplies.caches p member).resolve_left not_mem_nil
    exact ⟨⟨filled.value, filled.only⟩, rest⟩
  · exact (supplies.nested p member).resolve_left not_mem_nil

theorem Settled.holds (wf : g.WellFormed) (h : Settled g roots c) {id : NodeId}
    (there : g.Reachable roots id) :
    ∃ j < c.scopes.size, (c.scope j).hasPosition = true ∧ id ∈ (c.scope j).keys := by
  obtain ⟨r, member, start, node, leads⟩ := there
  induction leads with
  | refl => exact ⟨rootId, h.kept.root.1, h.kept.root.2, h.starts r member start node⟩
  | @tail a b _ uses ih =>
    obtain ⟨j, inside, position, held⟩ := ih
    have used := uses
    obtain ⟨n, w, found, input, same⟩ := uses
    have supplied := (h.tally j inside position).supplied a held n found
    cases isCache : n.isCache with
    | false => exact ⟨j, inside, position, same ▸ supplied.inputs isCache w input⟩
    | true =>
      obtain ⟨p, listed, own⟩ := mem_map.1 (supplied.cache isCache)
      obtain ⟨below, position', -⟩ := h.kept.entryScope p.2 (h.kept.caches p listed).2
      refine ⟨_, below, position', (h.caches p listed).1.value b ?_⟩
      rw [own, wf.id_eq found]
      exact used

end

end Compile

open Compile

/-- the tallies of a compilation: what its functions generate, how many dispatches it has and how
many nested functions -/
structure Tallies (g : Graph) (roots : List Root) (c : Context) (p : Program) : Prop where
  /-- the root function generates what the outputs lead to -/
  root : GeneratesOnce g (c.scope rootId) (g.LocallyReachable roots)
  /-- any other dispatch is that of a cache, and its function generates what the value of the cache
  leads to -/
  cache : ∀ d < c.entries.size, 0 < d → ∃ n w, c.cached d = some n.id ∧ g.get? n.id = some n ∧
    n.isCache = true ∧ n.inputs = [some w] ∧
      GeneratesOnce g (c.scope (c.entry d).scope) (ReflTransGen g.LocallyUses w.source)
  /-- besides the main dispatch there is one for every cache -/
  dispatches : ∃ C : Finset NodeId,
    (∀ id, id ∈ C ↔ g.Reachable roots id ∧ ∃ n, g.get? id = some n ∧ n.isCache = true) ∧
      p.dispatches.length = C.card + 1
  /-- among the functions that are written there is a nested one for every key -/
  nested : ∃ K : Finset String, (∀ key, key ∈ K ↔ ∃ id n, g.Reachable roots id ∧
      g.get? id = some n ∧ n.isNested = true ∧ nestedKey n = key) ∧
    (c.writtenScopes.filter fun i => !(c.scope i).hasPosition).length = K.card

namespace Compile

section
variable {g : Graph} {c : Context} {roots : List Root}

theorem mem_of_cached {d : DispatchId} {id : NodeId} (h : c.cached d = some id) :
    (id, d) ∈ c.caches := by
  obtain ⟨p, found, rfl⟩ := Option.map_eq_some_iff.1 h
  obtain rfl : p.2 = d := by simpa using find?_some found
  exact mem_of_find?_eq_some found

section
variable (wf : g.WellFormed) (h : Settled g roots c)
include wf h

theorem Settled.generatesOnce_root :
    GeneratesOnce g (c.scope rootId) (g.LocallyReachable roots) := by
  have tally := h.tally rootId h.kept.root.1 h.kept.root.2
  refine tally.generatesOnce wf h.root fun id there => ?_
  obtain ⟨r, member, start, node, leads⟩ := there
  exact tally.closed (h.starts r member start node) leads

theorem Settled.generatesOnce_cache {d : DispatchId} {n : Node} {w : Wire}
    (cached : c.cached d = some n.id) (found : g.get? n.id = some n)
    (inputs : n.inputs = [some w]) :
    GeneratesOnce g (c.scope (c.entry d).scope) (ReflTransGen g.LocallyUses w.source) := by
  have member : (n.id, d) ∈ c.caches := mem_of_cached cached
  obtain ⟨inside, position, -⟩ := h.kept.entryScope d (h.kept.caches _ member).2
  obtain ⟨filled, -⟩ := h.caches _ member
  have tally := h.tally _ inside position
  refine tally.generatesOnce wf (fun id held => ?_) fun id leads => ?_
  · rcases filled.only id held with start | ⟨v, used, leads⟩
    · exact .inl start
    · rw [(Graph.uses_iff found inputs).1 used] at leads
      exact .inr leads
  · exact tally.closed (filled.value w.source ((Graph.uses_iff found inputs).2 rfl)) leads

theorem Settled.mem_caches (id : NodeId) :
    id ∈ (c.caches.map Prod.fst).toFinset ↔
      g.Reachable roots id ∧ ∃ n, g.get? id = some n ∧ n.isCache = true := by
  rw [mem_toFinset]
  constructor
  · intro member
    obtain ⟨p, listed, rfl⟩ := mem_map.1 member
    exact (h.caches p listed).2
  · rintro ⟨there, n, found, isCache⟩
    obtain ⟨j, inside, position, held⟩ := h.holds wf there
    rw [← wf.id_eq found]
    exact ((h.tally j inside position).supplied id held n found).cache isCache

theorem Settled.mem_nested (key : String) :
    key ∈ (c.nested.map Prod.fst).toFinset ↔ ∃ id n, g.Reachable roots id ∧ g.get? id = some n ∧
      n.isNested = true ∧ nestedKey n = key := by
  rw [mem_toFinset]
  constructor
  · intro member
    obtain ⟨p, listed, rfl⟩ := mem_map.1 member
    obtain ⟨id, n, r, spec, t, there, found, parts, same⟩ := h.nested p listed
    exact ⟨id, n, there, found, nestedParts_iff.1 ⟨r, spec, t, parts, same⟩⟩
  · rintro ⟨id, n, there, found, own⟩
    obtain ⟨r, spec, t, parts, rfl⟩ := nestedParts_iff.2 own
    obtain ⟨j, inside, position, held⟩ := h.holds wf there
    exact ((h.tally j inside position).supplied id held n found).nested r spec t parts

end

end

end Compile

/-- **Nodes are generated once.**  Every function of a dispatch declares the locals of the distinct
nodes that it needs; every cache that an output leads to has one dispatch; and nodes computed by
nested functions have one for each key. -/
theorem compile_tallies {g : Graph} (built : g.Built) {roots : List Root} {o : Options}
    {p : Program} (h : g.compile roots o = .ok p) :
    ∃ c, g.parsed roots o = .ok c ∧ p = c.toProgram ∧ Tallies g roots c p := by
  have wf := built.wellFormed
  obtain ⟨c, parsed, rfl⟩ := compile_ok_iff.1 h
  have settled := settled_of_parsed wf parsed
  obtain ⟨-, -, -, -, perm⟩ := linked_of_parsed wf parsed
  refine ⟨c, parsed, rfl, settled.generatesOnce_root wf, ?_, ⟨_, settled.mem_caches wf, ?_⟩,
    ⟨_, settled.mem_nested wf, ?_⟩⟩
  · intro d inside positive
    obtain ⟨n, w, cached, found, op, inputs, -⟩ :=
      (parsed_computes built parsed).2 d inside positive
    exact ⟨n, w, cached, found, by simp only [Node.isCache, op], inputs,
      settled.generatesOnce_cache wf cached found inputs⟩
  · rw [List.toFinset_card_of_nodup settled.numbered.caches, List.length_map,
      ← settled.numbered.entries]
    show (c.dispatches.map _).length = _
    rw [List.length_map, perm.length_eq, List.length_range]
  · rw [List.toFinset_card_of_nodup settled.numbered.nested, List.length_map,
      ← settled.numbered.unplaced, ← List.countP_eq_length_filter, (parsed_scopes parsed).countP_eq]
    rfl

theorem compile_tallies_noise :
    ∃ (p : Program) (c : Context),
      cachedNoise.compile [⟨"density", some 6⟩] ⟨[], some [], 0⟩ = .ok p ∧
      c.scopes.toList.map Scope.bound = [4, 1, 0] ∧
        Tallies cachedNoise [⟨"density", some 6⟩] c p := by
  obtain ⟨c, parsed, bounds⟩ :
      ∃ c, cachedNoise.parsed [⟨"density", some 6⟩] ⟨[], some [], 0⟩ = .ok c ∧
        c.scopes.toList.map Scope.bound = [4, 1, 0] := by
    decide +kernel
  have compiled : cachedNoise.compile [⟨"density", some 6⟩] ⟨[], some [], 0⟩ = .ok c.toProgram :=
    compile_ok_iff.2 ⟨c, parsed, rfl⟩
  obtain ⟨c', parsed', -, tallies⟩ := compile_tallies built_cachedNoise compiled
  cases parsed.symm.trans parsed'
  exact ⟨c.toProgram, c, compiled, bounds, tallies⟩

end Terrain
