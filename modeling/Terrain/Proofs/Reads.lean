import Terrain.Proofs.Depth
import Terrain.Proofs.Form
import Terrain.Proofs.Order
import Terrain.Proofs.Subst

/-!
# What dispatches read

A dispatch reads another when its function samples a buffer that the other writes.  Most changes
of a context have nothing to do with that, since no term samples anything.  Along reads the caches
follow the order of the graph, which gives every dispatch its place.

* `Scope.samples`, `Reads`   samples of a function, and reads of a dispatch;
* `Still`                    dispatches, caches and samples are left alone;
* `Context.key`              the place of a dispatch in the order of the graph.
-/

namespace Terrain.Kernel

/-! ## samples -/

def Expr.buffers : Expr → List String
  | sym _ | literal _ | call0 _ => []
  | neg e | not e | group e | call1 _ e | lanes e _ => e.buffers
  | op _ a b | call2 _ a b => a.buffers ++ b.buffers
  | call3 _ a b c => a.buffers ++ b.buffers ++ c.buffers
  | sample buffer index => buffer :: index.buffers

def Line.buffers : Line → List String
  | bind _ _ e | letVar _ e | start _ e | assign _ e | store _ e | test e | otherwise e => e.buffers
  | _ => []

theorem congruent_dry : Congruent (fun e _ => e.buffers = []) (fun _ => True) fun _ => True := by
  constructor <;> simp +contextual [Expr.buffers]

theorem metric_buffers (m : Metric) (s : Shape) {e : Expr} (dry : e.buffers = []) :
    (Expr.metric m e s).buffers = [] := congruent_dry.metric (b := e) dry m trivial

end Terrain.Kernel

namespace Terrain.Compile

open Kernel Hash List

variable {d : DispatchId}

/-- a term over symbols samples nothing -/
theorem term_buffers (n : Node) (ss : List Symbol) : (term n (ss.map Expr.sym)).buffers = [] :=
  congruent_any congruent_dry n (b := ss.map Expr.sym) (forall₂_same.2 (by simp [Expr.buffers]))

def Scope.samples (s : Scope) : List String := s.lines.toList.flatMap fun l => l.line.buffers

def Entry.buffers (e : Entry) : List String := e.outputs.map Output.buffer

def Reads (c : Context) (d e : DispatchId) : Prop :=
  ∃ b ∈ (c.entry e).buffers, b ∈ (c.scope (c.entry d).scope).samples

section
variable {c c' : Context}

theorem samples_extends {low high : Nat} {s s' : Scope} (h : ScopeExtends low high s s') :
    s.samples <+: s'.samples := by
  obtain ⟨more, lines, -⟩ := h.lines
  unfold Scope.samples
  rw [lines, flatMap_append]
  exact prefix_append _ _

theorem buffers_extends {e e' : Entry} (h : EntryExtends e e') : e.buffers <+: e'.buffers :=
  h.outputs.map _

theorem Reads.grows {e : DispatchId} (h : Reads c d e) (k : Kept c) (grows : Grows c c')
    (inside : d < c.entries.size) (inside' : e < c.entries.size) : Reads c' d e := by
  obtain ⟨b, written, sampled⟩ := h
  have scope := (k.entryScope d inside).1
  refine ⟨b, (buffers_extends (grows.entry e inside')).subset written, ?_⟩
  rw [(grows.entry d inside).scope]
  exact (samples_extends (grows.scope _ scope)).subset sampled

/-! ## changes that have nothing to do with dispatches -/

structure Still (c c' : Context) : Prop where
  entries : c'.entries = c.entries
  caches : c'.caches = c.caches
  scopes : c.scopes.size ≤ c'.scopes.size
  samples : ∀ i < c.scopes.size, (c'.scope i).samples = (c.scope i).samples

theorem Still.refl (c : Context) : Still c c := ⟨rfl, rfl, le_rfl, fun _ _ => rfl⟩

theorem Still.trans {d : Context} (h : Still c c') (h' : Still c' d) : Still c d where
  entries := h'.entries.trans h.entries
  caches := h'.caches.trans h.caches
  scopes := h.scopes.trans h'.scopes
  samples i inside :=
    (h'.samples i (inside.trans_le h.scopes)).trans (h.samples i inside)

theorem still_modifyScope (c : Context) (i : ScopeId) (f : Scope → Scope)
    (h : ∀ s, (f s).samples = s.samples) : Still c (c.modifyScope i f) where
  entries := rfl
  caches := rfl
  scopes := le_of_eq (size_modifyScope c i f).symm
  samples j inside := by
    rw [scope_modifyScope c i j f inside]
    split
    · exact h _
    · rfl

theorem still_pushScope (c : Context) (s : Scope) :
    Still c { c with scopes := c.scopes.push s } where
  entries := rfl
  caches := rfl
  scopes := by simp
  samples i inside := by rw [scope_push, if_neg (inside.ne)]

theorem samples_push (s : Scope) (l : Indented) :
    (s.push l).samples = s.samples ++ l.line.buffers := by
  simp [Scope.samples, Scope.push]

variable (c)

theorem still_fold (token : List UInt8) : Still c (c.fold token) :=
  ⟨rfl, rfl, le_rfl, fun _ _ => rfl⟩

theorem still_requiredAll (rs : List Routine) : Still c (c.requiredAll rs) := by
  induction rs generalizing c with
  | nil => exact .refl c
  | cons r rs ih =>
    have head : Still c (c.required r) := ⟨rfl, rfl, le_rfl, fun _ _ => rfl⟩
    exact head.trans (ih _)

theorem still_declared (shape : Shape) {e : Expr} (dry : e.buffers = []) :
    Still c (c.declared shape e) := by
  have step := still_modifyScope { c with names := c.names + 1 } c.current
    (fun s => { s.push ⟨0, .bind (.bound (c.names + 1)) shape e⟩ with bound := s.bound + 1 })
    fun s => by
      have push := samples_push s ⟨0, .bind (.bound (c.names + 1)) shape e⟩
      simp only [Line.buffers, dry, append_nil] at push
      exact push
  exact ⟨step.entries, step.caches, step.scopes, step.samples⟩

theorem still_called (function : String) (shape : Shape) (args : List Symbol) :
    Still c (c.called function shape args) := by
  have step := still_modifyScope { c with names := c.names + 1 } c.current
    (fun s => { (s.push ⟨0, .declare (.result (c.names + 1)) shape⟩).push
      ⟨0, .call function args (.result (c.names + 1))⟩ with bound := s.bound + 1 })
    fun s => by
      have first := samples_push s ⟨0, .declare (.result (c.names + 1)) shape⟩
      have second := samples_push (s.push ⟨0, .declare (.result (c.names + 1)) shape⟩)
        ⟨0, .call function args (.result (c.names + 1))⟩
      simp only [Line.buffers, append_nil] at first second
      exact second.trans first
  exact ⟨step.entries, step.caches, step.scopes, step.samples⟩

theorem still_remembered (i : ScopeId) (node : NodeId) (s : Symbol) :
    Still c (c.remembered i node s) := still_modifyScope c i _ fun _ => rfl

variable {c}

theorem ConstantSlot.still {id : NodeId} {v : Value} {slot : Nat}
    (h : ConstantSlot id v c slot c') : Still c c' := by
  cases h <;> exact ⟨rfl, rfl, le_rfl, fun _ _ => rfl⟩

theorem InjectedSlot.still {name : String} {v : Value} {slot : Nat}
    (h : InjectedSlot name v c slot c') : Still c c' := by
  cases h <;> exact ⟨rfl, rfl, le_rfl, fun _ _ => rfl⟩

theorem FunctionOf.still {spec : Nested} {inputs : List Wire} {t : Template} {id : ScopeId}
    (h : FunctionOf spec inputs t c id c') : Still c c' := by
  cases h with
  | again known =>
    refine (still_fold c _).trans (still_modifyScope _ _ _ fun s => ?_)
    split <;> rfl
  | first unknown =>
    have push := still_pushScope c (c.nestedScope c.current spec inputs t)
    exact ⟨rfl, rfl, push.scopes, push.samples⟩

theorem computed_still (n : Node) (ss : List Symbol) (c : Context) :
    Still c (computed n ss c).2 := by
  unfold computed
  split
  case h_1 s op =>
    split
    · exact .refl c
    · exact still_declared c _ (term_buffers n [_])
  case h_2 metric a b op =>
    exact (still_declared c _ rfl).trans (still_declared _ _ (metric_buffers _ _ rfl))
  case h_3 =>
    exact (still_requiredAll c _).trans (still_declared _ _ (term_buffers n _))

/-! ## the order of dispatches -/

/-- the cache that a dispatch computes -/
def Context.cached (c : Context) (d : DispatchId) : Option NodeId :=
  (c.caches.find? fun p => p.2 == d).map Prod.fst

/-- the place of a dispatch in the order of the graph: that of its cache, and behind all for the
main dispatch -/
def Context.key (done : List NodeId) (c : Context) (d : DispatchId) : Nat :=
  match c.cached d with
  | some node => rank done node
  | none => done.length

theorem cached_congr (h : c'.caches = c.caches) (d : DispatchId) : c'.cached d = c.cached d := by
  unfold Context.cached
  rw [h]

theorem key_congr (done : List NodeId) (h : c'.caches = c.caches) : c'.key done = c.key done := by
  funext d
  unfold Context.key
  rw [cached_congr h]

theorem readAgain_caches (c : Context) (reader id : DispatchId) :
    (c.readAgain reader id).caches = c.caches := by
  rw [readAgain_frame]

theorem cached_cacheOpened (n : Node) (reader : DispatchId) (reduction : Int) (d : DispatchId) :
    (c.cacheOpened n reader reduction).cached d =
      if c.entries.size = d then some n.id else c.cached d := by
  unfold Context.cached Context.cacheOpened
  rw [find?_cons]
  by_cases same : c.entries.size = d
  · simp [same]
  · simp [same, beq_eq_false_iff_ne.2 same]

theorem Change.cached (h : Change c c') (inside : d < c.entries.size) :
    c'.cached d = c.cached d := by
  cases h with
  | cacheOpened n reader reduction reads unknown =>
    rw [cached_cacheOpened, if_neg (inside.ne')]
  | readAgain node reader id reads known => exact cached_congr (readAgain_caches c reader id) d
  | _ => rfl

theorem Reaches.cached (h : Reaches c c') (inside : d < c.entries.size) :
    c'.cached d = c.cached d := by
  induction h with
  | refl => rfl
  | tail chain change ih =>
    exact (change.cached (inside.trans_le (Reaches.grows chain).entries)).trans ih

theorem Reaches.key (done : List NodeId) (h : Reaches c c') (inside : d < c.entries.size) :
    c'.key done d = c.key done d := by
  unfold Context.key
  rw [h.cached inside]

theorem key_main (done : List NodeId) (k : Kept c) : c.key done 0 = done.length := by
  have none : c.cached 0 = none := by
    unfold Context.cached
    rw [Option.map_eq_none_iff, find?_eq_none]
    intro p member
    have := (k.caches p member).1
    simp only [beq_iff_eq]
    exact this.ne'
  unfold Context.key
  rw [none]

end

end Terrain.Compile
