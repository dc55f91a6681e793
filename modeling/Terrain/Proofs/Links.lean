import Terrain.Proofs.Reads

/-!
# Reads that are listed, and reads that are sampled

The tables of a compilation list what a dispatch reads, and depths are kept by that list.  Every
sample is listed, and by the end of a generation every read that was listed meanwhile is a sample:
a cache is listed first, is generated then, and is sampled last.

* `Linked`        reads are listed where there are samples, and depths are right;
* `Resolved`      reads listed meanwhile are samples;
* `Follows`       a stretch of a generation that keeps the one and gives the other;
* `emit_follows`  generating a node is such a stretch.
-/

namespace Terrain.Compile

open Kernel Hash List

variable {d reader : DispatchId}
variable {id : DispatchId} {g : Graph} {n : Node}

section
variable {c c' : Context}

/-! ## links -/

structure Linked (done : List NodeId) (c : Context) : Prop where
  deep : Deep (c.key done) c
  cached : ∀ p ∈ c.caches, c.cached p.2 = some p.1
  buffer : ∀ e < c.entries.size, 0 < e → ∀ b ∈ (c.entry e).buffers, b = "buf_" ++ (c.entry e).name
  main : ∀ b ∈ (c.entry 0).buffers, ∀ k : Nat, b ≠ "buf_" ++ ("cache_" ++ toString k)
  sampled : ∀ d < c.entries.size, ∀ b ∈ (c.scope (c.entry d).scope).samples,
    ∃ e ∈ (c.entry d).reads, b ∈ (c.entry e).buffers

def Resolved (c c' : Context) : Prop :=
  ∀ d < c'.entries.size, ∀ e ∈ (c'.entry d).reads,
    (d < c.entries.size ∧ e ∈ (c.entry d).reads) ∨ Reads c' d e

/-- a node may be generated in the current function: it comes before the cache that the function
computes -/
def Below (done : List NodeId) (c : Context) (id : NodeId) : Prop :=
  id ∈ done ∧ ∀ d, c.currentScope.dispatch = some d → rank done id < c.key done d

variable {done : List NodeId}

theorem Linked.still (l : Linked done c) (k : Kept c) (h : Still c c') : Linked done c' := by
  have entry (d : DispatchId) : c'.entry d = c.entry d := by
    unfold Context.entry
    rw [h.entries]
  refine ⟨?_, ?_, ?_, ?_, ?_⟩
  · rw [key_congr done h.caches]
    exact l.deep.congr (by rw [h.entries]) k.main.1 (fun d _ => by rw [entry]) fun d _ => by
      rw [entry]
  · intro p member
    rw [h.caches] at member
    rw [cached_congr h.caches]
    exact l.cached p member
  · intro e inside positive b member
    rw [h.entries] at inside
    rw [entry] at member ⊢
    exact l.buffer e inside positive b member
  · rw [entry]
    exact l.main
  · intro d inside b member
    rw [h.entries] at inside
    rw [entry] at member ⊢
    rw [h.samples _ (k.entryScope d inside).1] at member
    obtain ⟨e, read, written⟩ := l.sampled d inside b member
    exact ⟨e, read, by rw [entry]; exact written⟩

theorem Resolved.refl (c : Context) : Resolved c c := fun _ inside _ read => .inl ⟨inside, read⟩

theorem Resolved.of_still (h : Still c c') : Resolved c c' := by
  intro d inside e read
  have entry : c'.entry d = c.entry d := by
    unfold Context.entry
    rw [h.entries]
  rw [h.entries] at inside
  rw [entry] at read
  exact .inl ⟨inside, read⟩

theorem Resolved.trans {d : Context} (h : Resolved c c') (h' : Resolved c' d) (k : Kept c')
    (l : Linked done c') (grows : Grows c' d) : Resolved c d := by
  intro i inside e read
  rcases h' i inside e read with ⟨inside', read'⟩ | sampled
  · rcases h i inside' e read' with old | sampled
    · exact .inl old
    · exact .inr (sampled.grows k grows inside' (l.deep.ranked i inside' e read').2.1)
  · exact .inr sampled

theorem Below.of_reaches {id : NodeId} (b : Below done c id) (k : Kept c) (reaches : Reaches c c')
    (current : c'.current = c.current) : Below done c' id := by
  refine ⟨b.1, ?_⟩
  intro d dispatch
  unfold Context.currentScope at dispatch
  rw [current, (reaches.grows.scope c.current k.current.1).dispatch] at dispatch
  rw [reaches.key done (k.reader dispatch).1]
  exact b.2 d dispatch

theorem Below.input (wf : g.WellFormed) (sorted : Sorted g done) {w : Wire} (b : Below done c n.id)
    (found : g.get? n.id = some n) (input : some w ∈ n.inputs) : Below done c w.source := by
  obtain ⟨m, source, -⟩ := wf.wire found input
  obtain ⟨member, lower⟩ := sorted.input b.1 found input source
  exact ⟨member, fun d dispatch => lower.trans (b.2 d dispatch)⟩

/-! ## stretches of a generation -/

structure Follows (done : List NodeId) (c c' : Context) : Prop where
  reaches : Reaches c c'
  current : c'.current = c.current
  linked : Linked done c'
  resolved : Resolved c c'

theorem Follows.trans {d : Context} (h : Follows done c c') (h' : Follows done c' d) (k : Kept c) :
    Follows done c d where
  reaches := h.reaches.trans h'.reaches
  current := h'.current.trans h.current
  linked := h'.linked
  resolved := h.resolved.trans h'.resolved (h.reaches.kept k) h.linked h'.reaches.grows

theorem Follows.of_still (l : Linked done c) (k : Kept c) (reaches : Reaches c c')
    (current : c'.current = c.current) (still : Still c c') : Follows done c c' :=
  ⟨reaches, current, l.still k still, .of_still still⟩

theorem Below.follows {id : NodeId} (b : Below done c id) (k : Kept c) (h : Follows done c c') :
    Below done c' id := b.of_reaches k h.reaches h.current

/-! ## caches -/

/-- a read is listed that is not sampled yet -/
structure Listed (done : List NodeId) (reader id : DispatchId) (c c' : Context) : Prop where
  reaches : Reaches c c'
  current : c'.current = c.current
  linked : Linked done c'
  listed : id ∈ (c'.entry reader).reads
  others : ∀ d < c'.entries.size, ∀ e ∈ (c'.entry d).reads,
    (d < c.entries.size ∧ e ∈ (c.entry d).reads) ∨ Reads c' d e ∨ d = reader ∧ e = id

theorem entry_raiseDepth (fuel : Nat) (id : DispatchId) (depth : Int) (c : Context)
    (inside : d < c.entries.size) :
    ∃ k, (raiseDepth fuel id depth c).entry d = { c.entry d with depth := k } := by
  have all := raiseDepth_induct (R := fun c c' => c'.entries.size = c.entries.size ∧
      ∀ d < c.entries.size, ∃ k, c'.entry d = { c.entry d with depth := k }) c
    (fun c => ⟨rfl, fun d _ => ⟨(c.entry d).depth, rfl⟩⟩)
    (fun h h' => ⟨h'.1.trans h.1, fun d inside => by
      obtain ⟨k, same⟩ := h.2 d inside
      obtain ⟨k', same'⟩ := h'.2 d (h.1 ▸ inside)
      exact ⟨k', by rw [same', same]⟩⟩)
    (fun c id depth _ => ⟨size_modifyEntry c id _, fun d inside => by
      rw [entry_modifyEntry c id d _ inside]
      split
      · exact ⟨depth, rfl⟩
      · exact ⟨(c.entry d).depth, rfl⟩⟩) fuel id depth
  exact all.2 d inside

theorem size_readAgain (c : Context) (reader id : DispatchId) :
    (c.readAgain reader id).entries.size = c.entries.size :=
  (size_modifyEntry _ _ _).trans (size_raiseDepth _ _ _ _)

theorem entry_readAgain (c : Context) (reader id : DispatchId) (inside : d < c.entries.size) :
    ∃ k, (c.readAgain reader id).entry d = { c.entry d with
      depth := k
      reads := if reader = d then (c.entry d).reads ++ [id] else (c.entry d).reads } := by
  obtain ⟨k, raised⟩ :=
    entry_raiseDepth (c.entries.size + 1) id ((c.entry reader).depth + 1) c inside
  refine ⟨k, (entry_addRead _ reader id ((size_raiseDepth _ _ _ _).symm ▸ inside)).trans ?_⟩
  rw [raised]

theorem scope_readAgain (c : Context) (reader id : DispatchId) (i : ScopeId) :
    (c.readAgain reader id).scope i = c.scope i := by
  rw [readAgain_frame]
  rfl

theorem Listed.readAgain {node : NodeId} (l : Linked done c) (k : Kept c)
    (below : Below done c node) (reads : c.currentScope.dispatch = some reader)
    (known : c.caches.lookup node = some id) : Listed done reader id c (c.readAgain reader id) := by
  obtain ⟨inside, -⟩ := k.reader reads
  obtain ⟨positive, inside'⟩ := k.cache known
  have place : c.key done id = rank done node := by
    unfold Context.key
    rw [l.cached _ (mem_of_lookup known)]
  have size := size_readAgain c reader id
  have read {d e : DispatchId} (there : d < c.entries.size) :
      e ∈ ((c.readAgain reader id).entry d).reads ↔ e ∈ (c.entry d).reads ∨
          reader = d ∧ e = id := by
    obtain ⟨_, entry⟩ := entry_readAgain c reader id there
    rw [entry]
    exact mem_ite_append
  have buffers {d : DispatchId} (there : d < c.entries.size) :
      ((c.readAgain reader id).entry d).buffers = (c.entry d).buffers := by
    obtain ⟨_, entry⟩ := entry_readAgain c reader id there
    rw [entry]
    rfl
  refine ⟨.single (.readAgain c node reader id reads known), ?_, ⟨?_, ?_, ?_, ?_, ?_⟩, ?_, ?_⟩
  · rw [readAgain_frame]
    rfl
  · rw [key_congr done (readAgain_caches c reader id)]
    refine l.deep.readAgain inside positive inside' ?_ ?_
    · rw [place]
      exact below.2 reader reads
    · rw [place, key_main done k]
      exact rank_lt_length below.1
  · intro p member
    rw [readAgain_caches] at member
    rw [cached_congr (readAgain_caches c reader id)]
    exact l.cached p member
  · intro e there first b member
    rw [size] at there
    rw [buffers there] at member
    obtain ⟨_, entry⟩ := entry_readAgain c reader id there
    rw [entry]
    exact l.buffer e there first b member
  · rw [buffers k.main.1]
    exact l.main
  · intro d there b member
    rw [size] at there
    obtain ⟨_, entry⟩ := entry_readAgain c reader id there
    rw [entry, scope_readAgain] at member
    obtain ⟨e, listed, written⟩ := l.sampled d there b member
    refine ⟨e, (read there).2 (.inl listed), ?_⟩
    rw [buffers (l.deep.ranked d there e listed).2.1]
    exact written
  · exact (read inside).2 (.inr ⟨rfl, rfl⟩)
  · intro d there e member
    rw [size] at there
    rcases (read there).1 member with old | ⟨rfl, rfl⟩
    · exact .inl ⟨there, old⟩
    · exact .inr (.inr ⟨rfl, rfl⟩)

theorem size_cacheOpened (c : Context) (n : Node) (reader : DispatchId) (reduction : Int) :
    (c.cacheOpened n reader reduction).entries.size = c.entries.size + 1 := by
  simp [Context.cacheOpened]

theorem key_cacheOpened (n : Node) (reader : DispatchId) (reduction : Int) :
    (c.cacheOpened n reader reduction).key done c.entries.size = rank done n.id := by
  unfold Context.key
  rw [cached_cacheOpened, if_pos rfl]

theorem Linked.cacheOpened (l : Linked done c) (k : Kept c) (below : Below done c n.id)
    (reads : c.currentScope.dispatch = some reader) (reduction : Int) :
    Linked done (c.cacheOpened n reader reduction) := by
  obtain ⟨inside, -⟩ := k.reader reads
  have size := size_cacheOpened c n reader reduction
  have old {d : DispatchId} (there : d < c.entries.size) :=
    entry_cacheOpened_of_lt n reader reduction there
  have new := entry_cacheOpened n reduction inside
  have cases {d : Nat} (there : d < c.entries.size + 1) :
      d < c.entries.size ∨ d = c.entries.size := by
    omega
  have key {d : DispatchId} (there : d < c.entries.size) :
      (c.cacheOpened n reader reduction).key done d = c.key done d := by
    unfold Context.key
    rw [cached_cacheOpened, if_neg (there.ne')]
  refine ⟨?_, ?_, ?_, ?_, ?_⟩
  · refine (l.deep.congr_key fun d there => key there).cacheOpened n reduction inside ?_
    rw [key inside, key_cacheOpened]
    exact below.2 reader reads
  · intro p member
    rw [cached_cacheOpened]
    rcases mem_cons.1 member with rfl | member
    · exact if_pos rfl
    · rw [if_neg (ne_of_gt (k.caches p member).2)]
      exact l.cached p member
  · intro e there first b member
    rw [size] at there
    rcases cases there with there | rfl
    · rw [old there] at member ⊢
      exact l.buffer e there first b member
    · rw [new] at member
      cases member
  · rw [old k.main.1]
    exact l.main
  · intro d there b member
    rw [size] at there
    rcases cases there with there | rfl
    · rw [old there] at member ⊢
      rw [scope_cacheOpened_of_lt n reader reduction (k.entryScope d there).1] at member
      obtain ⟨e, listed, written⟩ := l.sampled d there b member
      refine ⟨e, mem_ite_append.2 (.inl listed), ?_⟩
      rw [old (l.deep.ranked d there e listed).2.1]
      exact written
    · -- the new function has no lines yet
      rw [new, scope_cacheOpened] at member
      cases member

theorem entry_outputAdded (c : Context) (id : DispatchId) (target : String) (shape : Shape)
    (inside : d < c.entries.size) :
    (c.outputAdded id target shape).entry d = { c.entry d with
      outputs := if id = d then (c.entry d).outputs ++ [⟨target, shape, "buf_" ++ target⟩]
        else (c.entry d).outputs } := by
  refine (entry_modifyEntry _ id d _ inside).trans ?_
  split <;> rfl

theorem mem_buffers_outputAdded {target b : String} {shape : Shape} (inside : d < c.entries.size) :
    b ∈ ((c.outputAdded id target shape).entry d).buffers ↔
      b ∈ (c.entry d).buffers ∨ id = d ∧ b = "buf_" ++ target := by
  unfold Entry.buffers
  rw [entry_outputAdded c id target shape inside]
  dsimp only
  split
  case isTrue same => simp [same]
  case isFalse other => simp [other]

theorem Linked.outputAdded (l : Linked done c) (some : 0 < c.entries.size) {target : String}
    (shape : Shape) (cache : 0 < id → target = (c.entry id).name)
    (main : id = 0 → ∀ k : Nat, target ≠ "cache_" ++ toString k) :
    Linked done (c.outputAdded id target shape) := by
  have size : (c.outputAdded id target shape).entries.size = c.entries.size :=
    size_modifyEntry _ _ _
  have entry {d : DispatchId} (there : d < c.entries.size) :=
    entry_outputAdded c id target shape there
  refine ⟨?_, l.cached, ?_, ?_, ?_⟩
  · exact l.deep.congr size some (fun d there => by rw [entry there]) fun d there => by
      rw [entry there]
  · intro e there first b member
    rw [size] at there
    have name : ((c.outputAdded id target shape).entry e).name = (c.entry e).name := by
      rw [entry there]
    rw [name]
    rcases (mem_buffers_outputAdded there).1 member with old | ⟨rfl, rfl⟩
    · exact l.buffer e there first b old
    · rw [cache first]
  · intro b member k same
    rcases (mem_buffers_outputAdded some).1 member with old | ⟨rfl, rfl⟩
    · exact l.main b old k same
    · exact main rfl k ((String.append_right_inj _).1 same)
  · intro d there b member
    rw [size] at there
    have same : (c.outputAdded id target shape).scope
        ((c.outputAdded id target shape).entry d).scope = c.scope (c.entry d).scope := by
      rw [entry there]
      rfl
    rw [same] at member
    obtain ⟨e, listed, written⟩ := l.sampled d there b member
    refine ⟨e, ?_, (mem_buffers_outputAdded (l.deep.ranked d there e listed).2.1).2 (.inl written)⟩
    rw [entry there]
    exact listed

theorem still_store (c : Context) (i : ScopeId) (f : Scope → Scope) (output : String) (s : Symbol)
    (lines : ∀ t, (f t).lines = t.lines.push ⟨0, .store output (.sym s)⟩) :
    Still c (c.modifyScope i f) :=
  still_modifyScope c i f fun t => by
    unfold Scope.samples
    rw [lines]
    simp [Line.buffers, Expr.buffers]

theorem reads_cacheClosed (c : Context) (id : DispatchId) (name : String) (shape : Shape)
    (s : Symbol) (inside : d < c.entries.size) :
    ((c.cacheClosed id name shape s).entry d).reads = (c.entry d).reads := by
  have same := congrArg Entry.reads (entry_outputAdded
    { c.lined [⟨0, .store "out_value" (.sym s)⟩] with stack := c.stack.tail } id name shape inside)
  exact same

theorem Linked.cacheClosed (l : Linked done c) (k : Kept c) (positive : 0 < id) (shape : Shape)
    (s : Symbol) : Linked done (c.cacheClosed id (c.entry id).name shape s) := by
  have still := still_store c c.current (·.push ⟨0, .store "out_value" (.sym s)⟩) "out_value" s
    fun _ => rfl
  have stored : Linked done
      { c.lined [⟨0, .store "out_value" (.sym s)⟩] with stack := c.stack.tail } :=
    l.still k ⟨still.entries, still.caches, still.scopes, still.samples⟩
  exact stored.outputAdded k.main.1 shape (fun _ => rfl) fun main => absurd main (positive.ne')

theorem Below.cacheOpened (wf : g.WellFormed) (sorted : Sorted g done) {w : Wire}
    (found : g.get? n.id = some n) (below : Below done c n.id) (input : some w ∈ n.inputs)
    (reader : DispatchId) (reduction : Int) :
    Below done (c.cacheOpened n reader reduction) w.source := by
  obtain ⟨m, source, -⟩ := wf.wire found input
  obtain ⟨member, lower⟩ := sorted.input below.1 found input source
  refine ⟨member, fun d dispatch => ?_⟩
  have current : (c.cacheOpened n reader reduction).currentScope.dispatch =
      some c.entries.size := by
    refine (congrArg Scope.dispatch (scope_cacheOpened n reader reduction)).trans ?_
    rfl
  cases current.symm.trans dispatch
  rw [key_cacheOpened]
  exact lower

section
variable {g : Graph} {fuel : Nat} {n : Node}

def KeepsLinked (done : List NodeId) (visit : Visit) : Prop :=
  ∀ {id c s c'}, Ran (visit id) c s c' → Kept c → Linked done c →
    Below done c id → Follows done c c'

theorem Visits.follows {ws : List (Option Wire)} {ss : List Symbol}
    (h : Visits (emitWithin g fuel) ws c ss c') (step : KeepsLinked done (emitWithin g fuel))
    (k : Kept c) (l : Linked done c) (below : ∀ w, some w ∈ ws → Below done c w.source) :
    Follows done c c' := by
  induction h with
  | nil c => exact ⟨.refl, rfl, l, .refl c⟩
  | @cons w ws c d c' s ss head tail ih =>
    have first := step head k l (below w (.head _))
    refine first.trans (ih (first.reaches.kept k) first.linked ?_) k
    exact fun w member => (below w (.tail _ member)).follows k first

theorem CacheOf.listed {value : NodeId} {reduction : Int}
    (h : CacheOf (emitWithin g fuel) n value reduction c id c')
    (step : KeepsLinked done (emitWithin g fuel)) (k : Kept c) (l : Linked done c)
    (below : Below done c n.id)
    (inner : ∀ reader, Below done (c.cacheOpened n reader reduction) value) :
    ∃ reader, c.currentScope.dispatch = some reader ∧ Listed done reader id c c' := by
  have reaches := h.reaches
  have current := h.current
  cases h with
  | @again reader _ reads known => exact ⟨reader, reads, .readAgain l k below reads known⟩
  | @first d reader s reads unknown body =>
    obtain ⟨inside, -⟩ := k.reader reads
    have size := size_cacheOpened c n reader reduction
    have inner := step body (k.cacheOpened n reader reduction reads unknown)
      (l.cacheOpened k below reads reduction) (inner reader)
    have kept := inner.reaches.kept (k.cacheOpened n reader reduction reads unknown)
    have close := (Change.cacheClosed d c.entries.size c.cacheName n.shape s).grows
    have name : (d.entry c.entries.size).name = c.cacheName := by
      rw [(inner.reaches.grows.entry _ (size ▸ lt_add_one _)).name,
        entry_cacheOpened n reduction inside]
    have linked := inner.linked.cacheClosed kept k.main.1 n.shape s
    rw [name] at linked
    refine ⟨reader, reads, reaches, current, linked, ?_, ?_⟩
    · have grows := (inner.reaches.grows.trans close).entry reader
        (size ▸ Nat.lt_succ_of_lt inside)
      refine grows.reads.subset ?_
      rw [entry_cacheOpened_of_lt n reader reduction inside]
      exact mem_ite_append.2 (.inr ⟨rfl, rfl⟩)
    · intro i there e listed
      have there : i < d.entries.size := (size_modifyEntry _ _ _) ▸ there
      rw [reads_cacheClosed d _ _ _ _ there] at listed
      rcases inner.resolved i there e listed with ⟨old, before⟩ | sampled
      · -- listed before the value was generated, so either before the cache or with it
        rw [size] at old
        rcases lt_or_ge i c.entries.size with older | new
        · rw [entry_cacheOpened_of_lt n reader reduction older] at before
          rcases mem_ite_append.1 before with before | ⟨rfl, rfl⟩
          · exact .inl ⟨older, before⟩
          · exact .inr (.inr ⟨rfl, rfl⟩)
        · obtain rfl : i = c.entries.size := le_antisymm (Nat.le_of_lt_succ old) new
          rw [entry_cacheOpened n reduction inside] at before
          cases before
      · exact .inr (.inl (sampled.grows kept close there
          (inner.linked.deep.ranked i there e listed).2.1))

end

/-! ## samples of caches -/

theorem samples_declared (c : Context) (shape : Shape) (e : Expr) {i : ScopeId}
    (inside : i < c.scopes.size) :
    ((c.declared shape e).scope i).samples =
      if c.current = i then (c.scope i).samples ++ e.buffers else (c.scope i).samples := by
  unfold Context.declared
  rw [scope_modifyScope { c with names := c.names + 1 } c.current i _ inside]
  split
  · exact samples_push _ _
  · rfl

theorem Listed.required (h : Listed done reader id c c') (r : Routine) (k : Kept c) :
    Listed done reader id c (c'.required r) where
  reaches := h.reaches.tail (.required c' r)
  current := h.current
  linked := h.linked.still (h.reaches.kept k) (still_requiredAll c' [r])
  listed := h.listed
  others := h.others

theorem Listed.sampled {b : String} (h : Listed done reader id c c') (k : Kept c)
    (reads : c.currentScope.dispatch = some reader) (written : b ∈ (c'.entry id).buffers)
    (shape : Shape) (reduction : Int) :
    Follows done c (c'.declared shape (sampleExpr b reduction)) := by
  have kept := h.reaches.kept k
  have grows := (Change.declared c' shape (sampleExpr b reduction)).grows
  obtain ⟨inside, scope⟩ := k.reader reads
  have inside : reader < c'.entries.size := inside.trans_le h.reaches.grows.entries
  have scope : (c'.entry reader).scope = c'.current := by
    rw [(h.reaches.grows.entry reader (k.reader reads).1).scope, scope, h.current]
  have l := h.linked
  refine ⟨h.reaches.tail (.declared _ _ _), h.current, ⟨?_, l.cached, l.buffer, l.main, ?_⟩, ?_⟩
  · exact l.deep.congr rfl kept.main.1 (fun _ _ => rfl) fun _ _ => rfl
  · intro d there b' member
    have same : ((c'.declared shape (sampleExpr b reduction)).entry d) = c'.entry d := rfl
    rw [same, samples_declared c' _ _ (kept.entryScope d there).1] at member
    split at member
    case isTrue here =>
      -- the current function is that of the reader alone
      rw [mem_append] at member
      rcases member with member | member
      · exact l.sampled d there b' member
      · have dispatch := (kept.entryScope d there).2.2
        rw [← here, ← scope, (kept.entryScope reader inside).2.2] at dispatch
        cases dispatch
        obtain rfl := mem_singleton.1 member
        exact ⟨id, h.listed, written⟩
    case isFalse => exact l.sampled d there b' member
  · intro d there e listed
    rcases h.others d there e listed with old | sampled | ⟨rfl, rfl⟩
    · exact .inl old
    · exact .inr (sampled.grows kept grows there (l.deep.ranked d there e listed).2.1)
    · refine .inr ⟨b, written, ?_⟩
      show b ∈ ((c'.declared shape (sampleExpr b reduction)).scope (c'.entry d).scope).samples
      rw [samples_declared c' _ _ (kept.entryScope d there).1, if_pos scope.symm]
      exact mem_append_cons_self

/-! ## generations -/

theorem Rule.follows {fuel : Nat} {s : Symbol} (h : Rule (emitWithin g fuel) n c s c')
    (step : KeepsLinked done (emitWithin g fuel)) (wf : g.WellFormed) (sorted : Sorted g done)
    (found : g.get? n.id = some n) (k : Kept c) (l : Linked done c) (below : Below done c n.id) :
    Follows done c c' := by
  have reaches := h.reaches
  have current := h.current
  have operand (w : Wire) (member : some w ∈ n.inputs) : Below done c w.source :=
    below.input wf sorted found member
  have told := h.ofForm
  cases form : n.op.form with
  | position =>
    rw [form] at told
    obtain ⟨-, rfl⟩ := told
    exact ⟨.refl, rfl, l, .refl _⟩
  | constant =>
    rw [form] at told
    obtain ⟨v, slot, op, taken, rfl⟩ := told
    exact .of_still l k reaches current taken.still
  | inject =>
    rw [form] at told
    obtain ⟨name, shape, fallback, v, slot, op, fits, taken, rfl⟩ := told
    exact .of_still l k reaches current taken.still
  | ref =>
    rw [form] at told
    obtain ⟨w, rest, inputs, target⟩ := told
    exact step target k l (operand w (inputs ▸ .head _))
  | operands =>
    rw [form] at told
    obtain ⟨ss, d, inputs, made⟩ := told
    have first := inputs.follows step k l operand
    have still := computed_still n ss d
    have rest := computed_reaches n ss d
    rw [← made] at still rest
    refine first.trans (.of_still first.linked (first.reaches.kept k) rest ?_ still) k
    rw [current, first.current]
  | function =>
    rw [form] at told
    obtain ⟨r, spec, t, ss, d, ss', d', callee, e, parts, inputs, again, function, rfl, rfl⟩ := told
    have first := inputs.follows step k l operand
    have kept := first.reaches.kept k
    have second : Follows done d (d.required r) :=
      .of_still first.linked kept (.single (.required d r)) rfl (still_requiredAll d [r])
    have upTo := first.trans second k
    have third := again.follows step (upTo.reaches.kept k) upTo.linked
      fun w member => (operand w member).follows k upTo
    have upTo := upTo.trans third k
    have still := function.still.trans (still_called e (e.scope callee).name spec.result ss')
    refine upTo.trans (.of_still upTo.linked (upTo.reaches.kept k) ?_ ?_ still) k
    · exact function.reaches.tail (.called _ _ _ _)
    · rw [current, upTo.current]
  | cache =>
    rw [form] at told
    obtain ⟨reduction, w, id, d, output, more, op, inputs, dispatch, made, rfl, rfl⟩ := told
    have input : some w ∈ n.inputs := inputs ▸ .head _
    obtain ⟨reader, reads, listed⟩ := dispatch.listed step k l below fun reader =>
      below.cacheOpened wf sorted found input reader reduction
    have written : output.buffer ∈ (d.entry id).buffers := by
      unfold Entry.buffers
      rw [made]
      exact .head _
    exact (listed.required .cacheIndex k).sampled k reads written n.shape reduction

theorem emit_follows (wf : g.WellFormed) (sorted : Sorted g done) (fuel : Nat) :
    KeepsLinked done (emitWithin g fuel) := by
  induction fuel with
  | zero => exact fun h => absurd h not_ran_throw
  | succ fuel ih =>
    intro id c s c' h k l below
    have reaches := emit_reaches h
    have current := emit_current h
    obtain ⟨n, found, generated⟩ := emitWithin_ran h
    obtain rfl := wf.id_eq found
    cases generated with
    | again known => exact .of_still l k reaches current (still_fold c _)
    | @first d _ unknown complete rule =>
      have start : Follows done c (c.fold n.structureBytes) :=
        .of_still l k (.single (.fold c _)) rfl (still_fold c _)
      have made := rule.follows ih wf sorted found (start.reaches.kept k) start.linked
        (below.follows k start)
      have upTo := start.trans made k
      refine upTo.trans (.of_still upTo.linked (upTo.reaches.kept k) ?_ ?_
        (still_remembered d _ _ _)) k
      · exact .single (.remembered _ _ _ _)
      · rw [current, upTo.current]

/-! ## outputs -/

/-- the root function is current, and it is that of the main dispatch -/
structure AtRoot (c : Context) : Prop where
  current : c.current = rootId
  main : (c.scope rootId).dispatch = some 0

theorem AtRoot.below (h : AtRoot c) (k : Kept c) {id : NodeId} (member : id ∈ done) :
    Below done c id := by
  refine ⟨member, fun d dispatch => ?_⟩
  unfold Context.currentScope at dispatch
  rw [h.current, h.main] at dispatch
  cases dispatch
  rw [key_main done k]
  exact rank_lt_length member

theorem AtRoot.later (h : AtRoot c) (k : Kept c) (reaches : Reaches c c')
    (current : c'.current = c.current) : AtRoot c' :=
  ⟨current.trans h.current, (reaches.grows.scope rootId k.root.1).dispatch.trans h.main⟩

theorem Linked.rooted (l : Linked done c) (k : Kept c) {r : Root} (shape : Shape) (s : Symbol)
    (free : ∀ k : Nat, r.target ≠ "cache_" ++ toString k) : Linked done (c.rooted r shape s) := by
  have still : Still c (c.stored r.target shape s) :=
    still_store c rootId _ ("out_" ++ r.target) s fun _ => rfl
  exact (l.still k still).outputAdded k.main.1 shape (fun positive => absurd positive (lt_irrefl 0))
    fun _ => free

theorem reads_rooted (c : Context) (r : Root) (shape : Shape) (s : Symbol)
    (inside : d < c.entries.size) : ((c.rooted r shape s).entry d).reads = (c.entry d).reads := by
  have same := congrArg Entry.reads
    (entry_outputAdded (c.stored r.target shape s) 0 r.target shape inside)
  exact same

theorem RootsRan.follows {roots : List Root} (h : RootsRan g roots c c') (wf : g.WellFormed)
    (sorted : Sorted g done) (there : ∀ r ∈ roots, ∀ n, r.node.bind g.get? = some n → n.id ∈ done)
    (free : ∀ r ∈ roots, ∀ k : Nat, r.target ≠ "cache_" ++ toString k) (k : Kept c)
    (l : Linked done c) (root : AtRoot c) : Follows done c c' := by
  induction h with
  | nil c => exact ⟨.refl, rfl, l, .refl c⟩
  | @cons r rest n s c d c' found ran tail ih =>
    have start : Follows done c (c.fold (rootBytes r n)) :=
      .of_still l k (.single (.fold c _)) rfl (still_fold c _)
    have below := root.below k (there r (.head _) n found)
    have value := emit_follows wf sorted _ ran (start.reaches.kept k) start.linked
      (below.follows k start)
    have upTo := start.trans value k
    have kept := upTo.reaches.kept k
    have stored : Follows done d (d.rooted r n.shape s) := by
      refine ⟨.single (.rooted d r n.shape s), rfl,
        upTo.linked.rooted kept n.shape s (free r (.head _)), ?_⟩
      intro i inside e listed
      have inside : i < d.entries.size := (size_modifyEntry _ _ _) ▸ inside
      rw [reads_rooted d r n.shape s inside] at listed
      exact .inl ⟨inside, listed⟩
    have upTo := upTo.trans stored k
    exact upTo.trans (ih (fun r member => there r (.tail _ member))
      (fun r member => free r (.tail _ member)) (upTo.reaches.kept k) upTo.linked
      (root.later k upTo.reaches upTo.current)) k

theorem linked_opened (done : List NodeId) (o : Options) : Linked done (Context.opened o) where
  deep := by
    have bare : ((Context.opened o).entry 0).reads = [] := rfl
    refine ⟨?_, ?_, ?_, rfl⟩
    · intro d inside e member
      obtain rfl := Nat.lt_one_iff.1 inside
      rw [bare] at member
      cases member
    · intro d inside e member
      obtain rfl := Nat.lt_one_iff.1 inside
      rw [bare] at member
      cases member
    · intro e inside positive
      obtain rfl := Nat.lt_one_iff.1 inside
      cases positive
  cached p member := by cases member
  buffer e inside positive := by
    obtain rfl := Nat.lt_one_iff.1 inside
    cases positive
  main b member := by cases member
  sampled d inside b member := by
    obtain rfl := Nat.lt_one_iff.1 inside
    cases member

end

end Terrain.Compile
