import Terrain.Proofs.Lookups
import Terrain.Proofs.Names

/-!
# What every context keeps

Facts about functions and dispatches that hold when generation starts and that no change breaks,
whichever node is generated.

* `Kept`            the invariant;
* `Reaches.kept`    it holds after any chain of changes;
* `Kept.current`    the current function belongs to a dispatch and is given the world position.
-/

namespace Terrain.Compile

open Kernel Hash List

/-- functions of dispatches and dispatches belong together, dispatches have names of their own, and
variables and nested functions are numbered by the names used so far; nested functions are deeper
than those of dispatches -/
structure Kept (c : Context) : Prop where
  root : rootId < c.scopes.size ∧ (c.scope rootId).hasPosition = true
  stack : ∀ i ∈ c.stack, i < c.scopes.size ∧ (c.scope i).hasPosition = true
  dispatch : ∀ i < c.scopes.size, (c.scope i).hasPosition = true →
    ∃ d < c.entries.size, (c.scope i).dispatch = some d ∧ (c.entry d).scope = i
  entryScope : ∀ d < c.entries.size, (c.entry d).scope < c.scopes.size ∧
    (c.scope (c.entry d).scope).hasPosition = true ∧ (c.scope (c.entry d).scope).dispatch = some d
  main : 0 < c.entries.size ∧ (c.entry 0).name = mainDispatch
  cacheNames : ∀ d < c.entries.size, 0 < d →
    ∃ k ≤ c.names, (c.entry d).name = "cache_" ++ toString k
  distinct : ∀ d < c.entries.size, ∀ e < c.entries.size,
    (c.entry d).name = (c.entry e).name → d = e
  caches : ∀ p ∈ c.caches, 0 < p.2 ∧ p.2 < c.entries.size
  serials : ∀ i < c.scopes.size, (c.scope i).hasPosition = true →
    ∀ l ∈ (c.scope i).lines.toList, l.line.Fresh 0 c.names
  nested : ∀ p ∈ c.nested, p.2 < c.scopes.size ∧ (c.scope p.2).hasPosition = false ∧
    ∃ stem, ∃ k ≤ c.names, (c.scope p.2).name = stem ++ "_" ++ toString k
  placed : ∀ i < c.scopes.size, (c.scope i).hasPosition = true → (c.scope i).depth = 0
  deep : ∀ i < c.scopes.size, (c.scope i).hasPosition = false → 0 < (c.scope i).depth

section
variable {c c' : Context}

theorem Kept.current (k : Kept c) :
    c.current < c.scopes.size ∧ (c.scope c.current).hasPosition = true := by
  unfold Context.current
  cases h : c.stack with
  | nil => exact k.root
  | cons i rest => exact k.stack i (h ▸ .head _)

theorem Kept.reader (k : Kept c) {d : DispatchId} (h : c.currentScope.dispatch = some d) :
    d < c.entries.size ∧ (c.entry d).scope = c.current := by
  obtain ⟨d', inside, dispatch, scope⟩ := k.dispatch c.current k.current.1 k.current.2
  unfold Context.currentScope at h
  rw [h] at dispatch
  cases dispatch
  exact ⟨inside, scope⟩

theorem Kept.cache (k : Kept c) {node : NodeId} {d : DispatchId}
    (h : c.caches.lookup node = some d) : 0 < d ∧ d < c.entries.size :=
  k.caches (node, d) (mem_of_lookup h)

/-! ## changes -/

/-- a new function, which has no lines yet if it belongs to a dispatch -/
def NewScope (c : Context) (i : ScopeId) : Prop :=
  ((c.scope i).hasPosition = true →
    (∃ d < c.entries.size, (c.scope i).dispatch = some d ∧ (c.entry d).scope = i) ∧
      (c.scope i).lines.toList = [] ∧ (c.scope i).depth = 0) ∧
    ((c.scope i).hasPosition = false → 0 < (c.scope i).depth)

/-- a new dispatch, named by a number above `low` -/
def NewEntry (low : Nat) (c : Context) (d : DispatchId) : Prop :=
  ((c.entry d).scope < c.scopes.size ∧ (c.scope (c.entry d).scope).hasPosition = true ∧
    (c.scope (c.entry d).scope).dispatch = some d) ∧
      ∃ k, low < k ∧ k ≤ c.names ∧ (c.entry d).name = "cache_" ++ toString k

theorem Kept.extend (k : Kept c) (grows : Grows c c')
    (stack : ∀ i ∈ c'.stack, i ∈ c.stack ∨ i < c'.scopes.size ∧ (c'.scope i).hasPosition = true)
    (scopes : ∀ i < c'.scopes.size, c.scopes.size ≤ i → NewScope c' i)
    (entries : ∀ d < c'.entries.size, c.entries.size ≤ d → NewEntry c.names c' d)
    (one : c'.entries.size ≤ c.entries.size + 1)
    (caches : ∀ p ∈ c'.caches, p ∈ c.caches ∨ c.entries.size ≤ p.2 ∧ p.2 < c'.entries.size)
    (nested : ∀ p ∈ c'.nested, p ∈ c.nested ∨ p.2 < c'.scopes.size ∧
      (c'.scope p.2).hasPosition = false ∧ ∃ stem, (c'.scope p.2).name =
        stem ++ "_" ++ toString c'.names)
    (flat : ∀ i < c.scopes.size, (c.scope i).hasPosition = true →
      (c'.scope i).depth = (c.scope i).depth) : Kept c' := by
  have placed {i : ScopeId} (inside : i < c.scopes.size) :
      (c'.scope i).hasPosition = (c.scope i).hasPosition := (grows.scope i inside).placed
  have name {d : DispatchId} (inside : d < c.entries.size) :
      (c'.entry d).name = (c.entry d).name := (grows.entry d inside).name
  -- the name of a new dispatch is not that of an old one
  have apart {d e : DispatchId} (old : d < c.entries.size) (new : c.entries.size ≤ e)
      (inside : e < c'.entries.size) : (c'.entry d).name ≠ (c'.entry e).name := by
    obtain ⟨-, m, above, -, named⟩ := entries e inside new
    rw [name old, named]
    by_cases zero : d = 0
    · subst zero
      rw [k.main.2]
      intro same
      have starts := congrArg (fun s : String => s.toList.head?) same
      rw [String.toList_append] at starts
      exact absurd starts (by simp [mainDispatch])
    · obtain ⟨m', le, named'⟩ := k.cacheNames d old (Nat.pos_of_ne_zero zero)
      rw [named']
      intro same
      have := numbered_inj same
      omega
  refine ⟨?_, ?_, ?_, ?_, ?_, ?_, ?_, ?_, ?_, ?_, ?_, ?_⟩
  · rw [placed k.root.1]
    exact ⟨k.root.1.trans_le grows.scopes, k.root.2⟩
  · intro i member
    rcases stack i member with member | new
    · obtain ⟨inside, position⟩ := k.stack i member
      rw [placed inside]
      exact ⟨inside.trans_le grows.scopes, position⟩
    · exact new
  · intro i inside position
    rcases lt_or_ge i c.scopes.size with old | new
    · rw [placed old] at position
      obtain ⟨d, below, dispatch, scope⟩ := k.dispatch i old position
      refine ⟨d, below.trans_le grows.entries, ?_, ?_⟩
      · rw [(grows.scope i old).dispatch, dispatch]
      · rw [(grows.entry d below).scope, scope]
    · exact ((scopes i inside new).1 position).1
  · intro d inside
    rcases lt_or_ge d c.entries.size with old | new
    · obtain ⟨below, position, dispatch⟩ := k.entryScope d old
      rw [(grows.entry d old).scope, placed below, (grows.scope _ below).dispatch]
      exact ⟨below.trans_le grows.scopes, position, dispatch⟩
    · exact (entries d inside new).1
  · rw [name k.main.1]
    exact ⟨k.main.1.trans_le grows.entries, k.main.2⟩
  · intro d inside positive
    rcases lt_or_ge d c.entries.size with old | new
    · obtain ⟨m, le, named⟩ := k.cacheNames d old positive
      exact ⟨m, le.trans grows.names, by rw [name old, named]⟩
    · obtain ⟨-, m, -, le, named⟩ := entries d inside new
      exact ⟨m, le, named⟩
  · intro d inside e inside' same
    rcases lt_or_ge d c.entries.size with old | new
    · rcases lt_or_ge e c.entries.size with old' | new'
      · rw [name old, name old'] at same
        exact k.distinct d old e old' same
      · exact absurd same (apart old new' inside')
    · rcases lt_or_ge e c.entries.size with old' | new'
      · exact absurd same.symm (apart old' new inside)
      · -- there is one new dispatch at most
        exact le_antisymm (Nat.le_of_lt_succ (inside.trans_le (by omega)))
          (Nat.le_of_lt_succ (inside'.trans_le (by omega)))
  · intro p member
    rcases caches p member with member | ⟨new, inside⟩
    · obtain ⟨positive, inside⟩ := k.caches p member
      exact ⟨positive, inside.trans_le grows.entries⟩
    · exact ⟨k.main.1.trans_le new, inside⟩
  · intro i inside position l member
    rcases lt_or_ge i c.scopes.size with old | new
    · rw [placed old] at position
      obtain ⟨more, lines, fresh⟩ := (grows.scope i old).lines
      rw [lines] at member
      rcases mem_append.1 member with member | member
      · exact (k.serials i old position l member).mono (le_rfl) grows.names
      · exact (fresh l member).mono (Nat.zero_le _) (le_rfl)
    · rw [((scopes i inside new).1 position).2.1] at member
      cases member
  · intro p member
    rcases nested p member with member | ⟨inside, position, stem, named⟩
    · obtain ⟨inside, position, stem, n, le, named⟩ := k.nested p member
      rw [placed inside, (grows.scope _ inside).name]
      exact ⟨inside.trans_le grows.scopes, position, stem, n, le.trans grows.names, named⟩
    · exact ⟨inside, position, stem, c'.names, le_rfl, named⟩
  · intro i inside position
    rcases lt_or_ge i c.scopes.size with old | new
    · rw [placed old] at position
      rw [flat i old position]
      exact k.placed i old position
    · exact ((scopes i inside new).1 position).2.2
  · intro i inside position
    rcases lt_or_ge i c.scopes.size with old | new
    · rw [placed old] at position
      exact lt_of_lt_of_le (k.deep i old position) (grows.scope i old).depth
    · exact (scopes i inside new).2 position

theorem Kept.of_grows (k : Kept c) (grows : Grows c c') (scopes : c'.scopes.size = c.scopes.size)
    (entries : c'.entries.size = c.entries.size) (caches : c'.caches = c.caches)
    (nested : c'.nested = c.nested) (stack : ∀ i ∈ c'.stack, i ∈ c.stack)
    (flat : ∀ i < c.scopes.size, (c.scope i).hasPosition = true →
      (c'.scope i).depth = (c.scope i).depth) : Kept c' :=
  k.extend grows (fun i member => .inl (stack i member)) (fun i inside new => by omega)
    (fun d inside new => by omega) (by omega) (fun p member => .inl (caches ▸ member))
    (fun p member => .inl (nested ▸ member)) flat

theorem size_modifyScope (c : Context) (i : ScopeId) (f : Scope → Scope) :
    (c.modifyScope i f).scopes.size = c.scopes.size := by
  simp [Context.modifyScope]

theorem size_modifyEntry (c : Context) (i : DispatchId) (f : Entry → Entry) :
    (c.modifyEntry i f).entries.size = c.entries.size := by
  simp [Context.modifyEntry]

theorem depth_modifyScope (c : Context) (i : ScopeId) (f : Scope → Scope)
    (h : ∀ s, (f s).depth = s.depth) (j : ScopeId) (inside : j < c.scopes.size)
    (_ : (c.scope j).hasPosition = true) :
    ((c.modifyScope i f).scope j).depth = (c.scope j).depth := by
  rw [scope_modifyScope c i j f inside]
  split
  · exact h _
  · rfl

theorem size_raiseDepth (c : Context) (fuel : Nat) (id : DispatchId) (depth : Int) :
    (raiseDepth fuel id depth c).entries.size = c.entries.size :=
  raiseDepth_induct (R := fun c d => d.entries.size = c.entries.size) c (fun _ => rfl)
    (fun h h' => h'.trans h) (fun c id _ _ => size_modifyEntry c id _) fuel id depth

theorem eq_size_of_push {α : Type} {xs : Array α} {x : α} {i : Nat} (h : i < (xs.push x).size)
    (new : xs.size ≤ i) : i = xs.size := by
  rw [Array.size_push] at h
  omega

theorem scope_nestedAdded (caller : ScopeId) (spec : Nested) (inputs : List Wire) (t : Template) :
    (c.nestedAdded caller spec inputs t).scope c.scopes.size =
      c.nestedScope caller spec inputs t := by
  refine (scope_push c _ _).trans ?_
  rw [if_pos rfl]

theorem scope_cacheOpened (n : Node) (reader : DispatchId) (reduction : Int) :
    (c.cacheOpened n reader reduction).scope c.scopes.size =
      { placedScope c.cacheName [⟨"out_value", n.shape, true⟩] with
        dispatch := some c.entries.size } := by
  refine (scope_push c _ _).trans ?_
  rw [if_pos rfl]

theorem entry_cacheOpened (n : Node) {reader : DispatchId} (reduction : Int)
    (below : reader < c.entries.size) :
    (c.cacheOpened n reader reduction).entry c.entries.size =
      ⟨c.cacheName, (c.entry reader).depth + 1, .two, reduction, [], c.scopes.size, []⟩ := by
  refine (entry_modifyEntry { c with entries := c.entries.push _ } reader _ _ (by simp)).trans ?_
  rw [if_neg (below.ne), entry_push, if_pos rfl]

theorem scope_cacheOpened_of_lt (n : Node) (reader : DispatchId) (reduction : Int) {i : ScopeId}
    (h : i < c.scopes.size) : (c.cacheOpened n reader reduction).scope i = c.scope i :=
  (scope_push c _ i).trans (if_neg (h.ne))

theorem Kept.nonneg (k : Kept c) (i : ScopeId) : 0 ≤ (c.scope i).depth := by
  by_cases inside : i < c.scopes.size
  · cases position : (c.scope i).hasPosition with
    | true => exact le_of_eq (k.placed i inside position).symm
    | false => exact le_of_lt (k.deep i inside position)
  · have outside : c.scope i = default := by
      unfold Context.scope
      rw [Array.getD_eq_getD_getElem?, Array.getElem?_eq_none (not_lt.1 inside)]
      rfl
    rw [outside]
    exact le_rfl

theorem Kept.nestedAdded (k : Kept c) (caller : ScopeId) (spec : Nested) (inputs : List Wire)
    (t : Template) (unknown : c.nested.lookup spec.key = none) :
    Kept (c.nestedAdded caller spec inputs t) := by
  refine k.extend (Change.nestedAdded c caller spec inputs t unknown).grows
    (fun i member => .inl member) ?_ (fun d inside new => absurd inside (not_lt.2 new))
    (Nat.le_succ _) (fun p member => .inl member) ?_ fun i inside _ => ?_
  · intro i inside new
    -- the new function is given no position
    obtain rfl := eq_size_of_push inside new
    have above := k.nonneg caller
    rw [NewScope, scope_nestedAdded]
    refine ⟨nofun, fun _ => ?_⟩
    show 0 < (c.scope caller).depth + 1
    omega
  · refine forall_mem_cons.2 ⟨?_, fun p member => .inl member⟩
    rw [scope_nestedAdded]
    exact .inr ⟨by simp [Context.nestedAdded], rfl, spec.stem, rfl⟩
  · exact congrArg Scope.depth ((scope_push c _ i).trans (if_neg (inside.ne)))

theorem Kept.cacheOpened (k : Kept c) (n : Node) (reader : DispatchId) (reduction : Int)
    (reads : c.currentScope.dispatch = some reader) (unknown : c.caches.lookup n.id = none) :
    Kept (c.cacheOpened n reader reduction) := by
  have scope := scope_cacheOpened (c := c) n reader reduction
  have entry := entry_cacheOpened (c := c) n reduction (k.reader reads).1
  have scopes : c.scopes.size < (c.cacheOpened n reader reduction).scopes.size := by
    simp [Context.cacheOpened]
  have entries : (c.cacheOpened n reader reduction).entries.size = c.entries.size + 1 := by
    simp [Context.cacheOpened]
  have position : ((c.cacheOpened n reader reduction).scope c.scopes.size).hasPosition = true := by
    rw [scope]
    rfl
  refine k.extend (Change.cacheOpened c n reader reduction reads unknown).grows ?_ ?_ ?_
    (by omega) ?_ (fun p member => .inl member)
    fun i inside _ => congrArg Scope.depth (scope_cacheOpened_of_lt n reader reduction inside)
  · exact forall_mem_cons.2 ⟨.inr ⟨scopes, position⟩, fun i member => .inl member⟩
  · intro i inside new
    obtain rfl := eq_size_of_push inside new
    rw [NewScope, scope]
    exact ⟨fun _ => ⟨⟨c.entries.size, by omega, rfl, by rw [entry]⟩, rfl, rfl⟩, nofun⟩
  · intro d inside new
    have last : d = c.entries.size := by
      rw [entries] at inside
      exact le_antisymm (Nat.le_of_lt_succ inside) new
    subst last
    refine ⟨?_, c.names + 1, by omega, le_rfl, ?_⟩
    · rw [entry]
      refine ⟨scopes, position, ?_⟩
      rw [scope]
    · rw [entry]
      rfl
  · refine forall_mem_cons.2 ⟨.inr ⟨le_rfl, ?_⟩, fun p member => .inl member⟩
    rw [entries]
    exact lt_add_one _

theorem Change.kept (h : Change c c') (k : Kept c) : Kept c' := by
  have grows := h.grows
  cases h with
  | nestedAdded caller spec inputs t unknown => exact k.nestedAdded caller spec inputs t unknown
  | cacheOpened n reader reduction reads unknown =>
    exact k.cacheOpened n reader reduction reads unknown
  | fold token | required r | constantAdded id v unknown | injectedAdded name v unknown =>
    exact k.of_grows grows rfl rfl rfl rfl (fun _ h => h) fun _ _ _ => rfl
  | declared | called =>
    exact k.of_grows grows (size_modifyScope _ _ _) rfl rfl rfl (fun _ h => h)
      (depth_modifyScope { c with names := c.names + 1 } _ _ fun _ => rfl)
  | remembered =>
    exact k.of_grows grows (size_modifyScope _ _ _) rfl rfl rfl (fun _ h => h)
      (depth_modifyScope c _ _ fun _ => rfl)
  | deepened id depth key known =>
    refine k.of_grows grows (size_modifyScope _ _ _) rfl rfl rfl
      (fun _ h => h) fun i inside position => ?_
    refine congrArg Scope.depth ((scope_modifyScope c id i _ inside).trans (if_neg ?_))
    rintro rfl
    rw [(k.nested _ (mem_of_lookup known)).2.1] at position
    cases position
  | readAgain node reader id reads known =>
    rw [readAgain_frame] at grows ⊢
    exact k.of_grows grows rfl ((size_modifyEntry _ _ _).trans (size_raiseDepth _ _ _ _)) rfl rfl
      (fun _ h => h) fun _ _ _ => rfl
  | cacheClosed id name shape s =>
    exact k.of_grows grows (size_modifyScope _ _ _) (size_modifyEntry _ _ _) rfl rfl
      (fun _ h => mem_of_mem_tail h) (depth_modifyScope c _ _ fun _ => rfl)
  | rooted r shape s =>
    exact k.of_grows grows (size_modifyScope _ _ _) (size_modifyEntry _ _ _) rfl rfl (fun _ h => h)
      (depth_modifyScope c _ _ fun _ => rfl)

theorem Reaches.kept (h : Reaches c c') (k : Kept c) : Kept c' := by
  induction h with
  | refl => exact k
  | tail _ change ih => exact change.kept ih

theorem kept_opened (o : Options) : Kept (Context.opened o) where
  root := ⟨zero_lt_one, rfl⟩
  stack i member := by
    obtain rfl := mem_singleton.1 member
    exact ⟨zero_lt_one, rfl⟩
  dispatch i inside _ := by
    obtain rfl := Nat.lt_one_iff.1 inside
    exact ⟨0, zero_lt_one, rfl, rfl⟩
  entryScope d inside := by
    obtain rfl := Nat.lt_one_iff.1 inside
    exact ⟨zero_lt_one, rfl, rfl⟩
  main := ⟨zero_lt_one, rfl⟩
  cacheNames d inside positive := by
    obtain rfl := Nat.lt_one_iff.1 inside
    cases positive
  distinct d inside e inside' _ := (Nat.lt_one_iff.1 inside).trans (Nat.lt_one_iff.1 inside').symm
  caches p member := by cases member
  serials i inside _ l member := by
    obtain rfl := Nat.lt_one_iff.1 inside
    cases member
  nested p member := by cases member
  placed i inside _ := by
    obtain rfl := Nat.lt_one_iff.1 inside
    rfl
  deep i inside position := by
    obtain rfl := Nat.lt_one_iff.1 inside
    cases position

end

end Terrain.Compile
