import Terrain.Proofs.Inlined
import Terrain.Proofs.Shapes
import Terrain.Proofs.Sources

/-!
# What generated functions mention

A line is written when what it mentions is there: routines were required, buffers are outputs of
dispatches, nested functions are complete.  So the lines of all functions are covered by the tables
of the context at all times, and tables only grow.  Nested functions mention neither buffers nor
other functions, and they are deeper than the functions of dispatches, which call them.

* `Context.Knows`        what the lines of a function may mention;
* `Covered`              lines mention what is known, and names are words;
* `preserved_covered`    the rules keep it;
* `parsed_covered`       it holds when a compilation is over.
-/

namespace Terrain

open Kernel Reader List

variable {spec : Nested} {n : Node} {reader : DispatchId}
variable {target : String} {i j : ScopeId} {ws : List Wire} {t : Template} {r : Routine}
  {s : Symbol}

/-! ## names -/

theorem isIdentifier_rest {name : String} (h : isIdentifier name = true) :
    name.toList.all isIdentifierRest = true := by
  unfold isIdentifier at h
  split at h
  case h_1 => cases h
  case h_2 c rest chars =>
    obtain ⟨first, others⟩ := Bool.and_eq_true_iff.1 h
    rw [chars, all_cons, others, isIdentifierRest, first]
    rfl

namespace Compile

theorem isName_buffer (rest : target.toList.all isIdentifierRest = true) :
    isName ("buf_" ++ target).toList = true :=
  isName_stem (l := ['b', 'u', 'f', '_']) (by decide) rest

theorem isLocal_output (rest : target.toList.all isIdentifierRest = true) :
    isLocal ("out_" ++ target).toList = true :=
  isLocal_stem (l := ['o', 'u', 't', '_']) (by decide) rest

theorem rest_cacheName (k : Nat) : ("cache_" ++ toString k).toList.all isIdentifierRest = true := by
  rw [String.toList_append, all_append, digits_rest]
  decide

/-! ## lines -/

section
variable {known : String → Prop} {rs : List Routine}

theorem closes_call {function : String} (word : isName function.toList = true)
    (called : known function) (params : known "params") {args : List Symbol}
    (clean : ∀ s ∈ args, s.isClean = true) (k : Nat) :
    Closes known (Line.call function args (.result k)).text := by
  have result : Ends known ("&" ++ (Var.result k).text) :=
    (closes_literal "&" (by decide)).ends (ends_var rfl)
  have arguments : Ends known
      (", ".intercalate (args.map Symbol.text ++ ["&" ++ (Var.result k).text])) := by
    refine ends_intercalate (forall_mem_append.2 ⟨?_, forall_mem_singleton.2 result⟩)
    exact forall_mem_map.2 fun s member => ends_symbol (clean s member) params
  exact ((closes_known (.inl rfl) word called).ends arguments).close _ (by decide)

theorem ends_sample {buffer : String} (word : isName buffer.toList = true) (there : known buffer)
    (index : known Routine.cacheIndex.name) (reduction : Int) :
    Ends known (sampleExpr buffer reduction).text := by
  have opened : Closes known (buffer ++ "[") := closes_known (.inr rfl) word there
  have called : Closes known (Routine.cacheIndex.name ++ "(") :=
    closes_known (.inl rfl) (by decide) index
  have position := (called.ends (ends_var (v := .position) rfl)).close ", " (by decide)
  have number : Ends known (toString reduction ++ "u") := ends_int reduction (by decide)
  have cell := (position.ends number).close ")" (by decide)
  exact ((opened.append cell).append (closes_literal "]" (by decide))).toEnds

end

/-! ## what is known -/

/-- what the lines of a function may mention; nested functions mention no buffers and
no functions -/
inductive Context.Knows (c : Context) : Bool → String → Prop
  | params {placed : Bool} : Knows c placed "params"
  | seed {placed : Bool} : Knows c placed "vg_seed3"
  | routine {placed : Bool} {r : Routine} (member : r ∈ c.routines) : Knows c placed r.name
  | buffer {d : DispatchId} {o : Output} (inside : d < c.entries.size)
      (member : o ∈ (c.entry d).outputs) : Knows c true o.buffer
  | nested {p : String × ScopeId} (member : p ∈ c.nested) : Knows c true (c.scope p.2).name

def functionStems : List String := ["vg_fractal", "vg_cellular", "vg_cache"]

/-- the lines of a function mention what is known, and its arguments are locals -/
structure ScopeCovered (c : Context) (i : ScopeId) : Prop where
  lines : ∀ l ∈ (c.scope i).lines.toList, Closes (c.Knows (c.scope i).hasPosition) l.text
  args : ∀ a ∈ (c.scope i).args, isLocal a.name.toList = true
  word : isName (c.scope i).name.toList = true
  title : i ≠ rootId → ∃ stem ∈ functionStems, ∃ k : Nat, (c.scope i).name =
    stem ++ "_" ++ toString k

structure Covered (c : Context) : Prop where
  scope : ∀ i < c.scopes.size, ScopeCovered c i
  outputs : ∀ d < c.entries.size, ∀ o ∈ (c.entry d).outputs, isName o.buffer.toList = true
  parameters : ∀ p ∈ c.parameters, p.injected = true → isIdentifier p.name = true

theorem isName_numbered {stem : String} (member : stem ∈ functionStems) (k : Nat) :
    isName (stem ++ "_" ++ toString k).toList = true := by
  have stems : ∀ stem ∈ functionStems, isStem (stem ++ "_").toList = true := by decide
  rw [String.toList_append]
  exact isName_append (stems stem member) (digits_rest k)

section
variable {c c' : Context}

theorem Context.Knows.later {placed : Bool} {x : String} (h : c.Knows placed x) (k : Kept c)
    (grows : Grows c c') : c'.Knows placed x := by
  cases h with
  | params => exact .params
  | seed => exact .seed
  | routine member => exact .routine (grows.routines.subset member)
  | buffer inside member =>
    exact .buffer (inside.trans_le grows.entries) ((grows.entry _ inside).outputs.subset member)
  | nested member =>
    rw [← (grows.scope _ (k.nested _ member).1).name]
    exact .nested (grows.nested.subset member)

theorem Context.Knows.idle {placed : Bool} {x : String} (h : c.Knows placed x) (idle : Idle c c') :
    c'.Knows placed x := by
  cases h with
  | params => exact .params
  | seed => exact .seed
  | routine member => exact .routine (idle.routines.subset member)
  | buffer inside member =>
    exact .buffer (idle.entries ▸ inside) (by rw [idle.entry]; exact member)
  | nested member =>
    rw [← idle.name]
    exact .nested (idle.nested ▸ member)

theorem provides_knows (c : Context) (placed : Bool) {rs : List Routine}
    (all : ∀ r ∈ rs, r ∈ c.routines) : Provides (c.Knows placed) rs :=
  ⟨.params, .seed, fun r member => .routine (all r member)⟩

theorem provides_none (c : Context) (placed : Bool) : Provides (c.Knows placed) [] :=
  provides_knows c placed nofun

theorem Covered.idle (h : Covered c) (idle : Idle c c') : Covered c' where
  scope i inside := by
    have own := h.scope i (idle.scopes ▸ inside)
    refine ⟨fun l member => ?_, fun a member => ?_, ?_, fun other => ?_⟩
    · rw [idle.lines i] at member
      rw [idle.placed i]
      exact (own.lines l member).mono fun _ known => known.idle idle
    · exact own.args a (idle.args i ▸ member)
    · rw [idle.name i]
      exact own.word
    · rw [idle.name i]
      exact own.title other
  outputs d inside := by
    rw [idle.entry]
    exact h.outputs d (idle.entries ▸ inside)
  parameters := idle.parameters ▸ h.parameters

theorem ScopeCovered.later (h : ScopeCovered c i) (inside : i < c.scopes.size) (k : Kept c)
    (grows : Grows c c') (lines : ∀ l ∈ (c'.scope i).lines.toList, l ∈ (c.scope i).lines.toList ∨
      Closes (c'.Knows (c.scope i).hasPosition) l.text)
    (args : ∀ a ∈ (c'.scope i).args, a ∈ (c.scope i).args ∨ isLocal a.name.toList = true) :
    ScopeCovered c' i where
  lines l member := by
    rw [(grows.scope i inside).placed]
    rcases lines l member with old | new
    · exact (h.lines l old).mono fun _ known => known.later k grows
    · exact new
  args a member := (args a member).elim (h.args a) id
  word := by
    rw [(grows.scope i inside).name]
    exact h.word
  title other := by
    rw [(grows.scope i inside).name]
    exact h.title other

theorem Covered.others (h : Covered c) (k : Kept c) (grows : Grows c c')
    (old : ∀ i < c.scopes.size, c'.scope i = c.scope i)
    (new : ∀ i < c'.scopes.size, c.scopes.size ≤ i → ScopeCovered c' i)
    (outputs : ∀ d < c'.entries.size, ∀ o ∈ (c'.entry d).outputs, isName o.buffer.toList = true)
    (parameters : ∀ p ∈ c'.parameters, p.injected = true → isIdentifier p.name = true) :
    Covered c' where
  scope i inside := by
    rcases lt_or_ge i c.scopes.size with there | fresh
    · refine (h.scope i there).later there k grows (fun l member => .inl ?_) fun a member => .inl ?_
      · exact old i there ▸ member
      · exact old i there ▸ member
    · exact new i inside fresh
  outputs := outputs
  parameters := parameters

theorem Covered.parameter (h : Covered c) (k : Kept c) (grows : Grows c c')
    (scopes : c'.scopes = c.scopes) (entries : c'.entries = c.entries) {p : Parameter}
    (parameters : c'.parameters = c.parameters ++ [p])
    (named : p.injected = true → isIdentifier p.name = true) : Covered c' := by
  refine h.others k grows (fun i _ => by rw [Context.scope, scopes, Context.scope])
    (fun i inside fresh => absurd (scopes ▸ inside) (not_lt.2 fresh)) ?_ ?_
  · unfold Context.entry
    rw [entries]
    exact h.outputs
  · rw [parameters]
    exact forall_mem_append.2 ⟨h.parameters, forall_mem_singleton.2 named⟩

theorem Covered.push (h : Covered c) (k : Kept c) {ls : List Indented} (w : Wrote c c' j ls)
    (closes : ∀ l ∈ ls, Closes (c'.Knows true) l.text)
    (args : ∀ a ∈ (c'.scope j).args, a ∈ (c.scope j).args ∨ isLocal a.name.toList = true)
    (outputs : ∀ d < c'.entries.size, ∀ o ∈ (c'.entry d).outputs, isName o.buffer.toList = true) :
    Covered c' where
  scope i inside := by
    have there : i < c.scopes.size := w.size ▸ inside
    by_cases own : i = j
    · subst own
      refine (h.scope i there).later there k w.reaches.grows (fun l member => ?_) args
      rw [w.lines] at member
      rw [w.position]
      exact (mem_append.1 member).imp_right (closes l)
    · refine (h.scope i there).later there k w.reaches.grows (fun l member => .inl ?_)
        fun a member => .inl ?_
      · exact w.others i there own ▸ member
      · exact w.others i there own ▸ member
  outputs := outputs
  parameters := w.parameters ▸ h.parameters

theorem args_modifyScope (f : Scope → Scope) (same : ∀ s, (f s).args = s.args)
    (inside : i < c.scopes.size) : ((c.modifyScope j f).scope i).args = (c.scope i).args := by
  rw [scope_modifyScope c j i f inside]
  split
  · exact same _
  · rfl

theorem Covered.declared (h : Covered c) (k : Kept c) (shape : Shape) {e : Expr}
    (ends : Ends (c.Knows true) e.text) : Covered (c.declared shape e) := by
  have args : ((c.declared shape e).scope c.current).args = (c.scope c.current).args :=
    args_modifyScope (c := { c with names := c.names + 1 }) _ (fun _ => rfl) k.current.1
  refine h.push k (wrote_declared k shape e) (forall_mem_singleton.2 ?_)
    (fun a member => .inl (args ▸ member)) h.outputs
  exact closes_indented ((closes_bind rfl shape ends).mono
    fun _ known => known.later k (Change.declared c shape e).grows)

theorem Covered.called (h : Covered c) (k : Kept c) {p : String × ScopeId} (member : p ∈ c.nested)
    (shape : Shape) {args : List Symbol} (clean : ∀ s ∈ args, s.isClean = true) :
    Covered (c.called (c.scope p.2).name shape args) := by
  have same : ((c.called (c.scope p.2).name shape args).scope c.current).args =
      (c.scope c.current).args :=
    args_modifyScope (c := { c with names := c.names + 1 }) _ (fun _ => rfl) k.current.1
  have word := (h.scope p.2 (k.nested p member).1).word
  have call : Closes (c.Knows true)
      (Line.call (c.scope p.2).name args (.result (c.names + 1))).text :=
    closes_call word (.nested member) .params clean _
  refine h.push k (wrote_called k (c.scope p.2).name shape args)
    (forall_mem_cons.2 ⟨?_, forall_mem_singleton.2 ?_⟩)
    (fun a member => .inl (same ▸ member)) h.outputs
  · exact closes_indented (closes_of_isClean (provides_none _ true) rfl)
  · exact closes_indented (call.mono
      fun _ known => known.later k (Change.called c (c.scope p.2).name shape args).grows)

theorem scopeCovered_nested (caller : ScopeId) (samples : Samples r (ws.map Wire.shape) t)
    (there : r ∈ c.routines) (stem : spec.stem ∈ functionStems) :
    ScopeCovered (c.nestedAdded caller spec ws t) c.scopes.size := by
  have scope := scope_nestedAdded (c := c) caller spec ws t
  refine ⟨fun l member => ?_, fun a member => ?_, ?_, fun _ => ?_⟩
  · have clean := samples.clean
    rw [length_map] at clean
    rw [scope] at member ⊢
    refine closes_indented (closes_of_isClean (@provides_knows _ false [r] ?_) ?_)
    · exact forall_mem_singleton.2 there
    · exact all_eq_true.1 clean l (by simpa [Context.nestedScope] using member)
  · rw [scope, args_nestedScope] at member
    rcases mem_append.1 member with member | member
    · obtain ⟨i, inside, rfl⟩ := mem_mapIdx.1 member
      exact isLocal_stem (l := ['i', 'n', '_']) (by decide) (digits_rest i)
    · obtain rfl := mem_singleton.1 member
      show isLocal "out_value".toList = true
      decide
  · rw [scope]
    exact isName_numbered stem _
  · rw [scope]
    exact ⟨spec.stem, stem, c.names + 1, rfl⟩

section
variable (h : Covered c) (k : Kept c)
include h k

theorem Covered.function {callee : ScopeId} (samples : Samples r (ws.map Wire.shape) t)
    (there : r ∈ c.routines) (stem : spec.stem ∈ functionStems)
    (function : FunctionOf spec ws t c callee c') :
    Covered c' ∧ (spec.key, callee) ∈ c'.nested := by
  cases function with
  | again known => exact ⟨(h.idle (idle_fold c _)).idle (idle_deepened _ _ _), mem_of_lookup known⟩
  | first unknown =>
    have folded := h.idle (idle_fold c ([Hash.Tag.scope] ++ Hash.Token.str spec.key))
    refine ⟨folded.others ((Change.fold c _).kept k)
      (Change.nestedAdded (c.fold _) c.current spec ws t unknown).grows
      (fun i inside => ?_) (fun i inside fresh => ?_) folded.outputs folded.parameters, .head _⟩
    · exact (scope_push _ _ i).trans (if_neg (inside.ne))
    · obtain rfl := eq_size_of_push inside fresh
      exact scopeCovered_nested _ samples there stem

theorem Covered.cacheOpened (reduction : Int) (reads : c.currentScope.dispatch = some reader)
    (unknown : c.caches.lookup n.id = none) : Covered (c.cacheOpened n reader reduction) := by
  have grows := (Change.cacheOpened c n reader reduction reads unknown).grows
  refine h.others k grows (fun i inside => scope_cacheOpened_of_lt n reader reduction inside)
    (fun i inside fresh => ?_) (fun d inside o member => ?_) h.parameters
  · obtain rfl := eq_size_of_push inside fresh
    have scope := scope_cacheOpened (c := c) n reader reduction
    have title : "vg_" ++ ("cache_" ++ toString (c.names + 1)) =
        "vg_cache" ++ "_" ++ toString (c.names + 1) := by
      rw [← String.append_assoc]
      rfl
    refine ⟨fun l member => ?_, fun a member => ?_, ?_, fun _ => ?_⟩
    · rw [scope] at member
      cases member
    · rw [scope] at member
      have locals : ∀ name ∈ ["position", "out_value"], isLocal name.toList = true := by decide
      refine locals a.name ?_
      simp only [placedScope, positionArgument, mem_cons, not_mem_nil, or_false] at member
      rcases member with rfl | rfl <;> simp
    · rw [scope]
      show isName ("vg_" ++ ("cache_" ++ toString (c.names + 1))).toList = true
      rw [title]
      exact isName_numbered (by decide) _
    · rw [scope]
      exact ⟨"vg_cache", by decide, c.names + 1, title⟩
  · rw [size_cacheOpened] at inside
    rcases lt_or_eq_of_le (Nat.le_of_lt_succ inside) with there | rfl
    · rw [entry_cacheOpened_of_lt n reader reduction there] at member
      exact h.outputs d there o member
    · rw [entry_cacheOpened n reduction (k.reader reads).1] at member
      cases member

theorem Covered.readAgain {node : NodeId} {id : DispatchId}
    (reads : c.currentScope.dispatch = some reader) (known : c.caches.lookup node = some id) :
    Covered (c.readAgain reader id) := by
  refine h.others k (Change.readAgain c node reader id reads known).grows
    (fun i _ => scope_readAgain c reader id i) (fun i inside fresh => ?_)
    (fun d inside o member => ?_) ?_
  · rw [readAgain_frame] at inside
    exact absurd inside (not_lt.2 fresh)
  · rw [size_readAgain] at inside
    obtain ⟨depth, entry⟩ := entry_readAgain c reader id inside
    rw [entry] at member
    exact h.outputs d inside o member
  · rw [readAgain_frame]
    exact h.parameters

/-- a value is stored by a function of a dispatch, and one more output is written to a buffer -/
theorem Covered.stored {output : String} (w : Wrote c c' j [⟨0, .store output (.sym s)⟩])
    (own : isLocal output.toList = true) (clean : s.isClean = true)
    (args : ∀ a ∈ (c'.scope j).args, a ∈ (c.scope j).args ∨ isLocal a.name.toList = true)
    (outputs : ∀ d < c.entries.size, ∀ o ∈ (c'.entry d).outputs, o ∈ (c.entry d).outputs ∨
      o.buffer = "buf_" ++ target) (rest : target.toList.all isIdentifierRest = true) :
    Covered c' := by
  have store : (Line.store output (.sym s)).isClean [] = true := Bool.and_eq_true_iff.2 ⟨own, clean⟩
  refine h.push k w (forall_mem_singleton.2 ?_) args fun d inside o member => ?_
  · exact closes_indented (closes_of_isClean (provides_none c' true) store)
  · rw [w.entries] at inside
    rcases outputs d inside o member with old | new
    · exact h.outputs d inside o old
    · exact new ▸ isName_buffer rest

theorem Covered.cacheClosed {id : DispatchId} {name : String} (shape : Shape)
    (rest : name.toList.all isIdentifierRest = true) (clean : s.isClean = true) :
    Covered (c.cacheClosed id name shape s) := by
  have args : ((c.cacheClosed id name shape s).scope c.current).args = (c.scope c.current).args :=
    args_modifyScope (f := (·.push ⟨0, .store "out_value" (.sym s)⟩)) (fun _ => rfl) k.current.1
  refine h.stored k (wrote_cacheClosed k id name shape s) (by decide) clean
    (fun a member => .inl (args ▸ member)) (fun d inside o member => ?_) rest
  rw [entry_cacheClosed c id name shape s inside] at member
  exact (mem_ite_append.1 member).imp_right fun ⟨_, same⟩ => same ▸ rfl

theorem Covered.rooted {r : Root} (shape : Shape) (named : isIdentifier r.target = true)
    (clean : s.isClean = true) : Covered (c.rooted r shape s) := by
  have rest := isIdentifier_rest named
  refine h.stored k (wrote_rooted k r shape s) (isLocal_output rest) clean (fun a member => ?_)
    (fun d inside o member => ?_) rest
  · have scope : (c.rooted r shape s).scope rootId = _ :=
      scope_modifyScope c rootId rootId _ k.root.1
    rw [scope, if_pos rfl] at member
    rcases mem_append.1 member with old | new
    · exact .inl old
    · obtain rfl := mem_singleton.1 new
      exact .inr (isLocal_output rest)
  · have entry := entry_outputAdded (c.stored r.target shape s) 0 r.target shape inside
    rw [show (c.rooted r shape s).entry d = _ from entry] at member
    exact (mem_ite_append.1 member).imp_right fun ⟨_, same⟩ => same ▸ rfl

end

end

/-! ## compilations -/

section
variable {g : Graph} {done : List NodeId}

/-- a symbol is a local or a slot -/
def IsClean (_ : Context) (_ : ScopeId) (_ : NodeId) (s : Symbol) : Prop := s.isClean = true

/-- as long as outputs are named by identifiers, all functions are covered -/
def CoveredFor (rs : List Root) (c : Context) : Prop :=
  (∀ r ∈ rs, isIdentifier r.target = true) → Covered c

theorem stem_of_parts (parts : nestedParts n = some (r, spec, t)) : spec.stem ∈ functionStems := by
  unfold nestedParts at parts
  split at parts
  case h_3 => cases parts
  all_goals
    cases parts
    simp [functionStems]

theorem clean_of_mem {c : Context} {ss : List Symbol}
    (h : Forall₂ (fun (w : Wire) s => IsClean c i w.source s) ws ss) :
    ∀ s ∈ ss, s.isClean = true := by
  induction h with
  | nil => nofun
  | cons head _ ih => exact forall_mem_cons.2 ⟨head, ih⟩

theorem Accepted.difference (wf : g.WellFormed) (accepted : Accepted g done n) {metric : Metric}
    (op : n.op = .distance metric) {v w : Wire} (inputs : n.inputs = [some v, some w]) :
    (n.inputShape 0).isFloatLike = true := by
  have accepts : (Op.distance metric).Accepts [v.shape, w.shape] n.shape := by
    rw [← op]
    exact @Graph.WellFormed.accepts g wf n [v, w] accepted.found inputs
      accepted.typed (by rw [op]; rfl)
  rw [@inputShape_zero n [v, w] inputs _ _ rfl]
  generalize v.shape = x, w.shape = y, n.shape = z at accepts ⊢
  cases accepts with
  | distance known float => exact float

theorem preserved_covered (wf : g.WellFormed) (rs : List Root) :
    Preserved g done (CoveredFor rs) IsClean where
  idle idle h named := (h named).idle idle
  later _ _ _ _ _ clean := clean
  start _ _ := rfl
  constant {c c' n v slot} held _ _ taken _ := by
    refine ⟨fun named => ?_, rfl⟩
    cases taken with
    | again known => exact held.fact named
    | first unknown =>
      exact (held.fact named).parameter held.kept
        (Change.constantAdded _ _ _ unknown).grows rfl rfl rfl nofun
  inject {c c' n name shape fallback v slot} held accepted op _ _ taken _ := by
    refine ⟨fun named => ?_, rfl⟩
    cases taken with
    | again known => exact held.fact named
    | first unknown =>
      exact (held.fact named).parameter held.kept (Change.injectedAdded _ _ _ unknown).grows rfl rfl
        rfl fun _ => accepted.named op
  ref _ _ _ _ clean := clean
  same _ _ _ _ clean := clean
  term {c c' n ws ss} held accepted plain inputs typed clean provided made _ := by
    refine ⟨fun named => ?_, rfl⟩
    have operands : ∀ e ∈ ss.map Expr.sym, e.isClean c.routines = true :=
      forall_mem_map.2 (clean_of_mem clean)
    have accepts := wf.accepts accepted.found inputs typed (isLeaf_of_isPlain plain)
    have body := isClean_accepted operands provided (accepted.plain wf plain) accepts
    exact made ▸ (held.fact named).declared held.kept n.shape
      (ends_of_isClean (provides_knows c true fun _ member => member) body)
  distance {c d c' n metric v w a b} held accepted op inputs first second made made' _ := by
    refine ⟨fun named => ?_, rfl⟩
    have float := accepted.difference wf op inputs
    have difference : (Expr.sub (.sym a) (.sym b)).isClean [] = true :=
      Bool.and_eq_true_iff.2 ⟨first, second⟩
    have covered : Covered d := made ▸ (held.fact named).declared held.kept (n.inputShape 0)
      (ends_of_isClean (provides_none c true) difference)
    have kept : Kept d := made ▸ (Change.declared c _ _).kept held.kept
    have length : (Expr.metric metric (.sym c.nextBound) (n.inputShape 0)).isClean [] = true :=
      isClean_metric rfl metric float
    exact made' ▸ covered.declared kept n.shape (ends_of_isClean (provides_none d true) length)
  nested {c d c' n r spec t ws ss callee} held accepted parts inputs typed clean provided
      function made _ := by
    refine ⟨fun named => ?_, rfl⟩
    have accepts := wf.accepts accepted.found inputs typed (isLeaf_of_parts parts)
    obtain ⟨-, samples⟩ := samples_of_parts parts inputs accepts accepted.octaves
    obtain ⟨covered, listed⟩ :=
      (held.fact named).function held.kept samples provided (stem_of_parts parts) function
    exact made ▸ covered.called (function.reaches.kept held.kept) listed spec.result
      (clean_of_mem clean)
  again held _ reads known _ named := (held.fact named).readAgain held.kept reads known
  opened {c n reduction w reader} held _ _ _ reads unknown _ named :=
    (held.fact named).cacheOpened held.kept reduction reads unknown
  closed {c c' n reduction w id s} held _ _ _ positive inside _ _ _ clean made _ named := by
    obtain ⟨k, -, name⟩ := held.kept.cacheNames id inside positive
    exact made ▸ (held.fact named).cacheClosed held.kept n.shape (name ▸ rest_cacheName k) clean
  sampled {c c' n reduction id output more} held accepted op positive inside cached outputs
      provided made _ := by
    refine ⟨fun named => ?_, rfl⟩
    have covered := held.fact named
    have member : output ∈ (c.entry id).outputs := outputs ▸ .head _
    exact made ▸ covered.declared held.kept n.shape
      (ends_sample (covered.outputs id inside output member) (.buffer inside member)
        (.routine provided) reduction)

theorem covered_opened (o : Options) : Covered (Context.opened o) := by
  have root : isName ("vg_" ++ mainDispatch).toList = true := by decide
  have position : isLocal positionArgument.name.toList = true := by decide
  refine ⟨fun i inside => ?_, fun d inside o member => ?_, fun p member => by cases member⟩
  · obtain rfl := Nat.lt_one_iff.1 inside
    exact ⟨fun l member => (by cases member), forall_mem_singleton.2 position, root,
      fun other => absurd rfl other⟩
  · obtain rfl := Nat.lt_one_iff.1 inside
    cases member

theorem parsed_covered {c : Context} {roots : List Root} {o : Options} (wf : g.WellFormed)
    (h : g.parsed roots o = .ok c) : Covered c := by
  obtain ⟨-, valid, -⟩ := parsed_ok h
  obtain ⟨-, -, -, -, covered⟩ :=
    parsed_holds (I := fun _ => CoveredFor) (P := fun _ => IsClean) wf h
    (fun _ _ => covered_opened o) (fun _ _ rs => preserved_covered wf rs)
    fun _ _ {rs r n s c} held _ _ clean _ named => by
      obtain ⟨earlier, last⟩ := forall_mem_append.1 named
      exact (held.fact earlier).rooted held.kept n.shape (last r (.head _)) clean
  exact covered fun r member => ((validate_fits valid).1 r member).named

end

end Compile

end Terrain
