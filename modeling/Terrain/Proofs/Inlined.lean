import Terrain.Proofs.Entries
import Terrain.Proofs.Tables
import Terrain.Proofs.Unfold

/-!
# Generated functions compute the graph

Code shares what it computes: a node is generated once in a function, its symbol is remembered, and
caches and nested functions are generated in the middle of what uses them.  Nevertheless every
output that the function of a dispatch stores is, with all locals replaced by what defines them,
the inline term of the node that belongs to it.

* `Means`            a symbol of a function stands for the inline term of a node;
* `Stores`           a function stores the inline terms of some nodes;
* `Writes`           what holds of all dispatches while code is generated;
* `preserved_writes` the rules keep it;
* `compile_inlined`  dispatches compute the inline terms of their nodes, and write each of them to
                     the buffer of its target.
-/

namespace Terrain.Compile

open Kernel Hash List

variable {t : Inline} {w : Wire} {i : ScopeId} {ws : List Wire} {ss : List Symbol}
  {rs roots : List Root} {s : Symbol} {d : DispatchId} {o : Options}
variable {id : NodeId} {wants : List (String × NodeId)}

section
variable (g : Graph) (done : List NodeId)

/-- the inline term of a node, down to its place in the order of the graph -/
def Inlines (c : Context) (id : NodeId) (t : Inline) : Prop :=
  g.inlineWithin c.slots (rank done id + 1) id = some t

def Means (c : Context) (i : ScopeId) (id : NodeId) (s : Symbol) : Prop :=
  ∃ t, ((c.scope i).unfold c.meanings).symbol s = some t ∧ Inlines g done c id t

def Stores (c : Context) (i : ScopeId) (wants : List (String × NodeId)) : Prop :=
  ∃ outputs : List (String × Inline),
    ((c.scope i).unfold c.meanings).stored = outputs.map (fun o => (o.1, some o.2)) ∧
      Forall₂ (fun w o => o.1 = w.1 ∧ Inlines g done c w.2 o.2) wants outputs

/-- the dispatch of a cache: not finished yet, or writing the value of the cache -/
structure Caches (c : Context) (d : DispatchId) (n : Node) (w : Wire) : Prop where
  cached : c.cached d = some n.id
  found : g.get? n.id = some n
  op : n.op = .cache (c.entry d).reduction
  inputs : n.inputs = [some w]
  args : (c.scope (c.entry d).scope).args = [positionArgument, ⟨"out_value", n.shape, true⟩]
  written : (c.entry d).outputs = [] ∧ Stores g done c (c.entry d).scope [] ∨
    (c.entry d).outputs = [⟨(c.entry d).name, n.shape, "buf_" ++ (c.entry d).name⟩] ∧
      Stores g done c (c.entry d).scope [("out_value", w.source)]

/-- the shape of an output -/
def rootShape (r : Root) : Shape := ((r.node.bind g.get?).map Node.shape).getD .float

structure Writes (rs : List Root) (c : Context) : Prop where
  root : (c.entry 0).scope = rootId
  args : (c.scope rootId).args =
    positionArgument :: rs.map fun r => ⟨"out_" ++ r.target, rootShape g r, true⟩
  outputs : (c.entry 0).outputs = rs.map fun r => ⟨r.target, rootShape g r, "buf_" ++ r.target⟩
  stores : Stores g done c rootId (rs.map fun r => ("out_" ++ r.target, r.node.getD 0))
  caches : ∀ d < c.entries.size, 0 < d → ∃ n w, Caches g done c d n w
  keyed : Keyed c

end

section
variable {g : Graph} {done : List NodeId} {c c' : Context} {n : Node}

/-! ## what stays -/

theorem Inlines.later (h : Inlines g done c id t) (reaches : Reaches c c') :
    Inlines g done c' id t := inlineWithin_mono reaches.slots.1 reaches.slots.2 (le_rfl) h

theorem Means.later (h : Means g done c i id s) (reaches : Reaches c c') (k : Kept c)
    (l' : Linked done c') (inside : i < c.scopes.size) (position : (c.scope i).hasPosition = true) :
    Means g done c' i id s := by
  obtain ⟨t, known, inlines⟩ := h
  obtain ⟨more, lines, fresh⟩ := (reaches.grows.scope i inside).lines
  exact ⟨t, unfold_symbol (reaches.meanings k l') lines fresh (k.serials i inside position) known,
    inlines.later reaches⟩

theorem Stores.later (h : Stores g done c i wants) (reaches : Reaches c c')
    (silent : ScopeSilent (c.scope i) (c'.scope i)) (k : Kept c) (l' : Linked done c') :
    Stores g done c' i wants := by
  obtain ⟨outputs, stored, all⟩ := h
  obtain ⟨more, lines, none⟩ := silent.lines
  exact ⟨outputs, unfold_stored (reaches.meanings k l') lines none stored,
    all.imp fun w o h => ⟨h.1, h.2.later reaches⟩⟩

theorem Stores.store {output : String} (h : Stores g done c i wants) (means : Means g done c i id s)
    (reaches : Reaches c c') (k : Kept c) (l' : Linked done c')
    (lines : (c'.scope i).lines.toList = (c.scope i).lines.toList ++
      [⟨0, .store output (.sym s)⟩]) :
    Stores g done c' i (wants ++ [(output, id)]) := by
  obtain ⟨outputs, stored, all⟩ := h
  obtain ⟨t, known, inlines⟩ := means
  have le := unfold_mono (reaches.meanings k l') (c.scope i)
  refine ⟨outputs ++ [(output, t)], ?_,
    rel_append (all.imp fun w o h => ⟨h.1, h.2.later reaches⟩)
      (.cons ⟨rfl, inlines.later reaches⟩ .nil)⟩
  have before : ((c.scope i).unfold c'.meanings).stored = outputs.map fun o => (o.1, some o.2) := by
    have le := le.stored
    rw [stored] at le
    exact stored_eq le
  have here : ((c.scope i).unfold c'.meanings).symbol s = some t := le.symbol s t known
  rw [unfold_append lines, map_append, ← before]
  show _ ++ [(output, ((c.scope i).unfold c'.meanings).symbol s)] = _
  rw [here]
  rfl

/-- a dispatch whose function stores nothing new -/
theorem Caches.later (h : Caches g done c d n w) (reaches : Reaches c c') (k : Kept c)
    (l' : Linked done c') (inside : d < c.entries.size)
    (silent : ScopeSilent (c.scope (c.entry d).scope) (c'.scope (c.entry d).scope))
    (outputs : (c'.entry d).outputs = (c.entry d).outputs) : Caches g done c' d n w := by
  have grows := reaches.grows.entry d inside
  refine ⟨?_, h.found, ?_, h.inputs, ?_, ?_⟩
  · rw [reaches.cached inside]
    exact h.cached
  · rw [grows.reduction]
    exact h.op
  · rw [grows.scope, silent.args]
    exact h.args
  · rw [outputs, grows.scope, grows.name]
    exact h.written.imp (fun x => ⟨x.1, x.2.later reaches silent k l'⟩)
      fun x => ⟨x.1, x.2.later reaches silent k l'⟩

theorem Writes.later (h : Writes g done rs c) (reaches : Reaches c c') (silent : Silent c c')
    (k : Kept c) (l' : Linked done c')
    (new : ∀ d < c'.entries.size, c.entries.size ≤ d → ∃ n w, Caches g done c' d n w) :
    Writes g done rs c' where
  root := by
    rw [(reaches.grows.entry 0 k.main.1).scope]
    exact h.root
  args := by
    rw [(silent.scope _ k.root.1).args]
    exact h.args
  outputs := by
    rw [silent.outputs 0 k.main.1]
    exact h.outputs
  stores := h.stores.later reaches (silent.scope _ k.root.1) k l'
  caches d inside positive := by
    rcases lt_or_ge d c.entries.size with old | fresh
    · obtain ⟨n, w, caches⟩ := h.caches d old positive
      exact ⟨n, w, caches.later reaches k l' old (silent.scope _ (k.entryScope d old).1)
        (silent.outputs d old)⟩
    · exact new d inside fresh
  keyed := reaches.keyed k h.keyed

/-! ## terms of nodes -/

theorem inlines_iff (stands : Stands g done n) :
    Inlines g done c n.id t ↔
      n.inlineBy c.slots (fun w => g.inlineWithin c.slots (rank done n.id) w.source) = some t := by
  show (g.get? n.id).bind _ = some t ↔ _
  rw [stands.found]
  rfl

theorem inlines_input (wf : g.WellFormed) (sorted : Sorted g done) (stands : Stands g done n)
    (input : some w ∈ n.inputs) (h : Inlines g done c w.source t) :
    g.inlineWithin c.slots (rank done n.id) w.source = some t := by
  obtain ⟨m, source, -⟩ := wf.wire stands.found input
  have lower := (sorted.input stands.member stands.found input source).2
  exact inlineWithin_mono (.refl _) (.refl _) lower h

theorem Means.inputs (wf : g.WellFormed) (sorted : Sorted g done) (stands : Stands g done n)
    (inputs : n.inputs = ws.map some)
    (h : Forall₂ (fun (w : Wire) s => Means g done c i w.source s) ws ss) :
    ∃ args, Forall₂ (fun s a => ((c.scope i).unfold c.meanings).symbol s = some a) ss args ∧
      gather (·.bind fun w => g.inlineWithin c.slots (rank done n.id) w.source)
        n.inputs = some args := by
  have each : ∀ w ∈ ws, some w ∈ n.inputs := fun w member => inputs ▸ mem_map_of_mem member
  rw [inputs]
  clear inputs
  suffices all : ∃ args, Forall₂
      (fun s a => ((c.scope i).unfold c.meanings).symbol s = some a) ss args ∧
      Forall₂ (fun (w : Wire) a =>
        g.inlineWithin c.slots (rank done n.id) w.source = some a) ws args by
    obtain ⟨args, known, terms⟩ := all
    exact ⟨args, known, gather_inputs terms⟩
  induction h with
  | nil => exact ⟨[], .nil, .nil⟩
  | @cons w s ws ss head _ ih =>
    obtain ⟨args, known, terms⟩ := ih fun w member => each w (.tail _ member)
    obtain ⟨t, here, inlines⟩ := head
    exact ⟨t :: args, .cons here known,
      .cons (inlines_input wf sorted stands (each w (.head _)) inlines) terms⟩

theorem inlineBy_plain (plain : Node.isPlain n = true) (slots : Slots)
    (input : Wire → Option Inline) :
    n.inlineBy slots input = (gather (·.bind input) n.inputs).bind (Node.applied n) ∧
      Node.template n = term n ((holes n.inputs.length).map Expr.sym) := by
  unfold Node.isPlain at plain
  unfold Node.inlineBy Node.template
  split at plain
  case h_10 target op =>
    have differs : n.inputShape 0 ≠ target := by simpa using plain
    rw [op]
    exact ⟨if_neg differs, rfl⟩
  case h_11 =>
    cases op : n.op <;> first | exact ⟨rfl, rfl⟩ | simp_all
  all_goals cases plain

end

/-! ## more lines -/

section
variable {g : Graph} {done : List NodeId} {c c' : Context}

/-- one function of a dispatch gets lines, and the others stay as they are -/
structure Wrote (c c' : Context) (j : ScopeId) (ls : List Indented) : Prop where
  reaches : Reaches c c'
  position : (c.scope j).hasPosition = true
  size : c'.scopes.size = c.scopes.size
  others : ∀ i < c.scopes.size, i ≠ j → c'.scope i = c.scope i
  lines : (c'.scope j).lines.toList = (c.scope j).lines.toList ++ ls
  nested : c'.nested = c.nested
  entries : c'.entries.size = c.entries.size
  parameters : c'.parameters = c.parameters

theorem Wrote.unplaced {j : ScopeId} {ls : List Indented} (w : Wrote c c' j ls)
    (inside : i < c.scopes.size) (position : (c.scope i).hasPosition = false) :
    c'.scope i = c.scope i :=
  w.others i inside fun own => by cases position.symm.trans (own ▸ w.position)

theorem Change.wrote (h : Change c c') {j : ScopeId} {f : Scope → Scope} {ls : List Indented}
    (scopes : c'.scopes = (c.modifyScope j f).scopes) (inside : j < c.scopes.size)
    (position : (c.scope j).hasPosition = true)
    (lines : ∀ s, (f s).lines.toList = s.lines.toList ++ ls) (nested : c'.nested = c.nested)
    (entries : c'.entries.size = c.entries.size) (parameters : c'.parameters = c.parameters) :
    Wrote c c' j ls := by
  have scope {i : ScopeId} (there : i < c.scopes.size) :
      c'.scope i = if j = i then f (c.scope i) else c.scope i := by
    rw [← scope_modifyScope c j i f there, Context.scope, scopes, Context.scope]
  refine ⟨.single h, position, ?_, fun i there other => ?_, ?_, nested, entries, parameters⟩
  · rw [scopes, size_modifyScope]
  · rw [scope there, if_neg other.symm]
  · rw [scope inside, if_pos rfl, lines]

section
variable (k : Kept c)
include k

theorem wrote_declared (shape : Shape) (e : Expr) :
    Wrote c (c.declared shape e) c.current [⟨0, .bind (.bound (c.names + 1)) shape e⟩] :=
  (Change.declared c shape e).wrote rfl k.current.1 k.current.2
    (fun _ => Array.toList_push) rfl rfl rfl

theorem wrote_called (function : String) (shape : Shape) (args : List Symbol) :
    Wrote c (c.called function shape args) c.current [⟨0, .declare (.result (c.names + 1)) shape⟩,
      ⟨0, .call function args (.result (c.names + 1))⟩] :=
  (Change.called c function shape args).wrote rfl k.current.1 k.current.2
    (fun _ => by simp [Scope.push]) rfl rfl rfl

theorem wrote_cacheClosed (id : DispatchId) (name : String) (shape : Shape) (s : Symbol) :
    Wrote c (c.cacheClosed id name shape s) c.current [⟨0, .store "out_value" (.sym s)⟩] :=
  (Change.cacheClosed c id name shape s).wrote (f := (·.push ⟨0, .store "out_value" (.sym s)⟩)) rfl
    k.current.1 k.current.2 (fun _ => Array.toList_push) rfl (size_modifyEntry _ _ _) rfl

theorem wrote_rooted (r : Root) (shape : Shape) (s : Symbol) :
    Wrote c (c.rooted r shape s) rootId [⟨0, .store ("out_" ++ r.target) (.sym s)⟩] :=
  (Change.rooted c r shape s).wrote
    (f := fun f => { f.push ⟨0, .store ("out_" ++ r.target) (.sym s)⟩ with
      args := f.args ++ [⟨"out_" ++ r.target, shape, true⟩] }) rfl k.root.1 k.root.2
    (fun _ => Array.toList_push) rfl (size_modifyEntry _ _ _) rfl

theorem symbol_declared (shape : Shape) {e : Expr} (names : c.meanings.Le c'.meanings)
    (lines : (c'.scope c.current).lines.toList =
      ((c.declared shape e).scope c.current).lines.toList)
    (known : e.fill ((c.scope c.current).unfold c.meanings).symbol c.meanings.read = some t) :
    ((c'.scope c.current).unfold c'.meanings).symbol c.nextBound = some t := by
  rw [unfold_append (lines.trans (wrote_declared k shape e).lines)]
  show (if _ then _ else _) = _
  rw [if_pos rfl]
  exact fill_mono (unfold_mono names _).symbol names.read known

theorem means_declared (shape : Shape) {e : Expr} (made : c' = c.declared shape e)
    (l' : Linked done c')
    (known : e.fill ((c.scope c.current).unfold c.meanings).symbol c.meanings.read = some t)
    (inlines : Inlines g done c id t) : Means g done c' c.current id c.nextBound := by
  subst made
  have reaches : Reaches c (c.declared shape e) := .single (.declared c shape e)
  exact ⟨t, symbol_declared k shape (reaches.meanings k l') rfl known, inlines.later reaches⟩

theorem symbol_called {function key : String} (shape : Shape) {args : List Inline}
    (names : c.meanings.Le (c.called function shape ss).meanings)
    (keyed : c.functionKey function = some key)
    (known : Forall₂ (fun s a => ((c.scope c.current).unfold c.meanings).symbol s =
      some a) ss args) :
    (((c.called function shape ss).scope c.current).unfold
      (c.called function shape ss).meanings).symbol (.var (.result (c.names + 1))) =
      some (.function key args) := by
  obtain ⟨inside, position⟩ := k.current
  let m := (c.called function shape ss).meanings
  let declared : Indented := ⟨0, .declare (.result (c.names + 1)) shape⟩
  have pushed : ((c.scope c.current).push declared).lines.toList =
      (c.scope c.current).lines.toList ++ [declared] := by
    simp [Scope.push]
  -- the variable is declared first, which leaves the arguments as they are
  have before : Forall₂
    (fun s a => (((c.scope c.current).push declared).unfold m).symbol s = some a)
      ss args := by
    refine known.imp fun s a here => ?_
    have fresh : ∀ l ∈ [declared], l.line.Fresh c.names (c.names + 1) :=
      forall_mem_singleton.2 (Line.fresh_next rfl (.inr rfl))
    exact unfold_symbol names pushed fresh (k.serials _ inside position) here
  have after : ((c.called function shape ss).scope c.current).unfold m =
      (((c.scope c.current).push declared).unfold m).step m
        (.call function ss (.result (c.names + 1))) := by
    rw [unfold_append (wrote_called k function shape ss).lines, unfold_append pushed]
    rfl
  rw [after]
  show (if _ then _ else _) = _
  rw [if_pos rfl, names.function _ _ keyed, gather_eq before]
  rfl

end

end

/-! ## what the rules keep -/

section
variable {g : Graph} {done : List NodeId} {c c' : Context} {n : Node}

theorem stores_idle (idle : Idle c c') (i : ScopeId) (wants : List (String × NodeId)) :
    Stores g done c' i wants ↔ Stores g done c i wants := by
  unfold Stores Inlines Scope.unfold
  rw [idle.meanings, idle.slots, idle.lines]

theorem writes_idle (idle : Idle c c') (h : Writes g done rs c) : Writes g done rs c' where
  root := by
    rw [idle.entry]
    exact h.root
  args := by
    rw [idle.args]
    exact h.args
  outputs := by
    rw [idle.entry]
    exact h.outputs
  stores := (stores_idle idle _ _).2 h.stores
  caches d inside positive := by
    rw [idle.entries] at inside
    obtain ⟨n, w, caches⟩ := h.caches d inside positive
    refine ⟨n, w, ?_, caches.found, ?_, caches.inputs, ?_, ?_⟩
    · rw [cached_congr idle.caches]
      exact caches.cached
    · rw [idle.entry]
      exact caches.op
    · rw [idle.entry, idle.args]
      exact caches.args
    · rw [idle.entry, stores_idle idle, stores_idle idle]
      exact caches.written
  keyed p member := by
    rw [idle.nested] at member
    rw [idle.name]
    have same := congrFun (congrArg Meanings.function idle.meanings) (c.scope p.2).name
    exact same.trans (h.keyed p member)

theorem Writes.same (h : Writes g done rs c) (reaches : Reaches c c') (silent : Silent c c')
    (k : Kept c) (l' : Linked done c') (size : c'.entries.size = c.entries.size) :
    Writes g done rs c' :=
  h.later reaches silent k l' fun d inside fresh => by omega

theorem means_constant {v : Value} {slot : Nat} (stands : Stands g done n) (op : n.op = .constant v)
    (known : c.slots.constant n.id = some slot) (i : ScopeId) :
    Means g done c i n.id (.param slot v.shape) := by
  refine ⟨.slot slot v.shape, rfl, (inlines_iff stands).2 ?_⟩
  unfold Node.inlineBy
  rw [op]
  show (c.slots.constant n.id).map _ = _
  rw [known]
  rfl

theorem means_inject {name : String} {shape : Shape} {fallback : Option Value} {slot : Nat}
    (stands : Stands g done n) (op : n.op = .inject name shape fallback)
    (known : c.slots.injected name = some slot) (i : ScopeId) :
    Means g done c i n.id (.param slot shape) := by
  refine ⟨.slot slot shape, rfl, (inlines_iff stands).2 ?_⟩
  unfold Node.inlineBy
  rw [op]
  show (c.slots.injected name).map _ = _
  rw [known]
  rfl

theorem Means.passed (wf : g.WellFormed) (sorted : Sorted g done) (stands : Stands g done n)
    (input : some w ∈ n.inputs) (passes : ∀ slots input, n.inlineBy slots input = input w)
    (h : Means g done c i w.source s) : Means g done c i n.id s := by
  obtain ⟨t, known, inlines⟩ := h
  refine ⟨t, known, (inlines_iff stands).2 ?_⟩
  rw [passes]
  exact inlines_input wf sorted stands input inlines

theorem means_term (wf : g.WellFormed) (sorted : Sorted g done) (stands : Stands g done n)
    (plain : Node.isPlain n = true) (k : Kept c) (inputs : n.inputs = ws.map some)
    (means : Forall₂ (fun (w : Wire) s => Means g done c c.current w.source s) ws ss)
    (made : c' = c.declared n.shape (term n (ss.map Expr.sym))) (l' : Linked done c') :
    Means g done c' c.current n.id c.nextBound := by
  obtain ⟨args, known, terms⟩ := Means.inputs wf sorted stands inputs means
  obtain ⟨t, filled, same⟩ := term_fill c.meanings.read n known
  refine means_declared k n.shape made l' filled ((inlines_iff stands).2 ?_)
  obtain ⟨by_, template⟩ := inlineBy_plain plain c.slots
    fun w => g.inlineWithin c.slots (rank done n.id) w.source
  have length : n.inputs.length = ss.length := by
    rw [inputs, length_map]
    exact means.length_eq
  rw [by_, terms]
  show (Node.template n).fill _ _ = _
  rw [template, length]
  exact same

theorem means_distance (wf : g.WellFormed) (sorted : Sorted g done) (stands : Stands g done n)
    {d : Context} {metric : Metric} {v : Wire} {a b : Symbol} (k : Kept c) (l : Linked done c)
    (op : n.op = .distance metric) (inputs : n.inputs = [some v, some w])
    (first : Means g done c c.current v.source a) (second : Means g done c c.current w.source b)
    (made : d = c.declared (n.inputShape 0) (.sub (.sym a) (.sym b)))
    (made' : c' = d.declared n.shape (.metric metric (.sym c.nextBound) (n.inputShape 0)))
    (l' : Linked done c') : Means g done c' c.current n.id d.nextBound := by
  obtain ⟨x, knownA, inlinesA⟩ := first
  obtain ⟨y, knownB, inlinesB⟩ := second
  have reaches : Reaches c d := made ▸ .single (.declared c _ _)
  have linked : Linked done d := made ▸ l.still k (still_declared c _ rfl)
  have kept := reaches.kept k
  have current : d.current = c.current := by rw [made]; rfl
  -- the local of the difference, and then the length over it
  have difference : ((d.scope c.current).unfold d.meanings).symbol c.nextBound =
      some (.op (.arith .sub) x y) := by
    refine symbol_declared k (n.inputShape 0) (reaches.meanings k linked) (by rw [made]) ?_
    show (((c.scope c.current).unfold c.meanings).symbol a).bind _ = _
    rw [knownA]
    show (((c.scope c.current).unfold c.meanings).symbol b).map _ = _
    rw [knownB]
    rfl
  obtain ⟨t, term, same⟩ := (congruent_fill ((d.scope c.current).unfold d.meanings).symbol
    (filling [x, y]) d.meanings.read noRead).metric (a := .sym c.nextBound)
      (b := .sub (.var (.input 0)) (.var (.input 1))) ⟨_, difference, rfl⟩ metric
        (s := n.inputShape 0) trivial
  rw [← current] at term ⊢
  refine means_declared kept n.shape made' l' term ((inlines_iff stands).2 ?_)
  have terms : gather (·.bind fun w => g.inlineWithin d.slots (rank done n.id) w.source) n.inputs =
      some [x, y] := by
    have one := inlines_input wf sorted stands (w := v) (by simp [inputs]) (inlinesA.later reaches)
    have two := inlines_input wf sorted stands (w := w) (by simp [inputs]) (inlinesB.later reaches)
    rw [inputs]
    exact @gather_inputs _ [v, w] _ (.cons one (.cons two .nil))
  unfold Node.inlineBy
  rw [op]
  show (gather _ n.inputs).bind _ = _
  rw [terms]
  show (Node.template n).fill _ _ = _
  unfold Node.template
  rw [op]
  exact same

theorem inlineBy_function {r : Routine} {spec : Nested} {t : Template}
    (parts : nestedParts n = some (r, spec, t)) (slots : Slots) (input : Wire → Option Inline) :
    n.inlineBy slots input = (gather (·.bind input) n.inputs).map (.function spec.key) := by
  unfold nestedParts at parts
  unfold Node.inlineBy
  split at parts
  case h_1 op => cases parts; rw [op]
  case h_2 op => cases parts; rw [op]
  case h_3 => cases parts

theorem means_nested (wf : g.WellFormed) (sorted : Sorted g done) (stands : Stands g done n)
    {d : Context} {r : Routine} {spec : Nested} {t : Template}
    {callee : ScopeId} (k : Kept c) (l : Linked done c) (keyed : Keyed c)
    (parts : nestedParts n = some (r, spec, t)) (inputs : n.inputs = ws.map some)
    (means : Forall₂ (fun (w : Wire) s => Means g done c c.current w.source s) ws ss)
    (function : FunctionOf spec ws t c callee d)
    (made : c' = d.called (d.scope callee).name spec.result ss) (l' : Linked done c') :
    Means g done c' c.current n.id (.var (.result (d.names + 1))) := by
  have reaches := function.reaches
  have linked : Linked done d := l.still k function.still
  have current : d.current = c.current := by cases function <;> rfl
  have means : Forall₂ (fun (w : Wire) s => Means g done d d.current w.source s) ws ss := by
    rw [current]
    exact means.imp fun w s h => h.later reaches k linked k.current.1 k.current.2
  obtain ⟨args, known, terms⟩ := Means.inputs wf sorted stands inputs means
  have called : Reaches d c' := made ▸ .single (.called d _ _ _)
  have kept := reaches.kept k
  have key := reaches.keyed k keyed _ function.key
  have symbol := symbol_called kept spec.result (made ▸ called.meanings kept l') key known
  rw [← made, current] at symbol
  refine ⟨_, symbol, Inlines.later ((inlines_iff stands).2 ?_) called⟩
  rw [inlineBy_function parts, terms]
  rfl

theorem Caches.eq {n' : Node} (h : Caches g done c d n' w)
    (stands : Stands g done n) (cached : c.cached d = some n.id) : n' = n := by
  have same : n'.id = n.id := Option.some.inj (h.cached.symm.trans cached)
  have found := h.found
  rw [same, stands.found] at found
  exact (Option.some.inj found).symm

theorem means_sampled (stands : Stands g done n) {reduction : Int} {id : DispatchId}
    {output : Output} {more : List Output} (k : Kept c) (l : Linked done c) (h : Writes g done rs c)
    (op : n.op = .cache reduction) (positive : 0 < id) (inside : id < c.entries.size)
    (cached : c.cached id = some n.id) (outputs : (c.entry id).outputs = output :: more)
    (made : c' = c.declared n.shape (sampleExpr output.buffer reduction)) (l' : Linked done c') :
    Means g done c' c.current n.id c.nextBound := by
  obtain ⟨n', w, caches⟩ := h.caches id inside positive
  obtain rfl := caches.eq stands cached
  have written : output.buffer ∈ (c.entry id).buffers := by
    unfold Entry.buffers
    rw [outputs]
    exact .head _
  have reads : c.readBy output.buffer (sampleIndex reduction) = some n'.id := by
    have same : (c.entry id).reduction = reduction := by
      have := caches.op.symm.trans op
      simpa using this
    unfold Context.readBy
    rw [l.writer_eq k positive inside written]
    show (if _ then _ else _) = _
    rw [if_pos (by rw [same])]
    exact cached
  refine means_declared (t := .cache n'.id) k n'.shape made l' ?_ ((inlines_iff stands).2 ?_)
  · show (c.readBy output.buffer (sampleIndex reduction)).map _ = _
    rw [reads]
    rfl
  · unfold Node.inlineBy
    rw [op]

theorem caches_opened (stands : Stands g done n) {reduction : Int} {reader : DispatchId}
    (k : Kept c) (op : n.op = .cache reduction) (inputs : n.inputs = [some w])
    (reads : c.currentScope.dispatch = some reader) :
    Caches g done (c.cacheOpened n reader reduction) c.entries.size n w := by
  have entry := entry_cacheOpened (c := c) n reduction (k.reader reads).1
  have scope := scope_cacheOpened (c := c) n reader reduction
  refine ⟨?_, stands.found, ?_, inputs, ?_, .inl ⟨?_, ?_⟩⟩
  · rw [cached_cacheOpened, if_pos rfl]
  · rw [entry]
    exact op
  · rw [entry]
    dsimp only
    rw [scope]
    rfl
  · rw [entry]
  · refine ⟨[], ?_, .nil⟩
    rw [entry]
    dsimp only
    rw [scope]
    rfl

theorem scope_ne (k : Kept c) {e : DispatchId} (inside : d < c.entries.size)
    (inside' : e < c.entries.size) (other : d ≠ e) : (c.entry d).scope ≠ (c.entry e).scope := by
  intro same
  have dispatch := (k.entryScope d inside).2.2
  rw [same, (k.entryScope e inside').2.2] at dispatch
  exact other (Option.some.inj dispatch).symm

theorem writes_closed (stands : Stands g done n) {id : DispatchId} (k : Kept c)
    (h : Writes g done rs c) (inputs : n.inputs = [some w]) (positive : 0 < id)
    (inside : id < c.entries.size) (own : (c.entry id).scope = c.current)
    (cached : c.cached id = some n.id) (unwritten : (c.entry id).outputs = [])
    (means : Means g done c c.current w.source s)
    (made : c' = c.cacheClosed id (c.entry id).name n.shape s) (l' : Linked done c') :
    Writes g done rs c' := by
  have reaches : Reaches c c' := made ▸ .single (.cacheClosed c _ _ _ _)
  have entry {d : DispatchId} (there : d < c.entries.size) : c'.entry d = _ :=
    made ▸ entry_cacheClosed c id (c.entry id).name n.shape s there
  have scope {i : ScopeId} (there : i < c.scopes.size) : c'.scope i = _ :=
    made ▸ scope_cacheClosed c id (c.entry id).name n.shape s there
  -- other dispatches have other functions, which are left alone
  have silent {d : DispatchId} (there : d < c.entries.size) (other : d ≠ id) :
      ScopeSilent (c.scope (c.entry d).scope) (c'.scope (c.entry d).scope) := by
    refine .of_eq ?_
    rw [scope (k.entryScope d there).1, if_neg]
    rw [← own]
    exact scope_ne k inside there other.symm
  have outputs {d : DispatchId} (there : d < c.entries.size) (other : d ≠ id) :
      (c'.entry d).outputs = (c.entry d).outputs := by
    rw [entry there]
    exact if_neg other.symm
  have main : (0 : Nat) ≠ id := positive.ne
  have mainSilent := silent k.main.1 main
  rw [h.root] at mainSilent
  refine ⟨?_, ?_, ?_, ?_, ?_, reaches.keyed k h.keyed⟩
  · rw [entry k.main.1]
    exact h.root
  · rw [mainSilent.args]
    exact h.args
  · rw [outputs k.main.1 main]
    exact h.outputs
  · exact h.stores.later reaches mainSilent k l'
  · intro d there first
    have there : d < c.entries.size :=
      Nat.lt_of_lt_of_eq there (by rw [made]; exact size_modifyEntry _ _ _)
    obtain ⟨n', w', caches⟩ := h.caches d there first
    by_cases other : d = id
    · subst other
      obtain rfl := caches.eq stands cached
      cases caches.inputs.symm.trans inputs
      have stores : Stores g done c (c.entry d).scope [] := by
        rcases caches.written with ⟨-, stores⟩ | ⟨written, -⟩
        · exact stores
        · rw [unwritten] at written
          cases written
      have current := k.current.1
      refine ⟨n', w, ?_, caches.found, ?_, caches.inputs, ?_, .inr ⟨?_, ?_⟩⟩
      · rw [reaches.cached there]
        exact cached
      · rw [entry there]
        exact caches.op
      · rw [entry there]
        dsimp only
        rw [own, scope current, if_pos rfl, ← own]
        exact caches.args
      · rw [entry there]
        dsimp only
        rw [if_pos rfl, unwritten]
        rfl
      · rw [entry there]
        dsimp only
        rw [own] at stores ⊢
        exact stores.store means reaches k l' (made ▸ (wrote_cacheClosed k _ _ _ s).lines)
    · exact ⟨n', w', caches.later reaches k l' there (silent there other) (outputs there other)⟩

theorem writes_rooted (wf : g.WellFormed) {r : Root} (k : Kept c) (h : Writes g done rs c)
    (found : r.node.bind g.get? = some n) (means : Means g done c rootId n.id s)
    (l' : Linked done (c.rooted r n.shape s)) :
    Writes g done (rs ++ [r]) (c.rooted r n.shape s) := by
  have reaches : Reaches c (c.rooted r n.shape s) := .single (.rooted c r n.shape s)
  have shape : rootShape g r = n.shape := by
    unfold rootShape
    rw [found]
    rfl
  have node : r.node.getD 0 = n.id := by
    obtain ⟨id, own, found'⟩ := Option.bind_eq_some_iff.1 found
    rw [own, wf.id_eq found']
    rfl
  have entry {d : DispatchId} (there : d < c.entries.size) :
      (c.rooted r n.shape s).entry d = _ :=
    entry_outputAdded (c.stored r.target n.shape s) 0 r.target n.shape there
  have scope {i : ScopeId} (there : i < c.scopes.size) :
      (c.rooted r n.shape s).scope i = _ :=
    scope_modifyScope c rootId i _ there
  have root := scope k.root.1
  rw [if_pos rfl] at root
  refine ⟨?_, ?_, ?_, ?_, ?_, reaches.keyed k h.keyed⟩
  · rw [entry k.main.1]
    exact h.root
  · rw [root]
    show (c.scope rootId).args ++ _ = _
    rw [h.args, map_append]
    simp [shape]
  · rw [entry k.main.1]
    show (c.entry 0).outputs ++ _ = _
    rw [h.outputs, map_append]
    simp [shape]
  · rw [map_append, map_singleton, node]
    exact h.stores.store means reaches k l' (wrote_rooted k r n.shape s).lines
  · intro d there first
    have there : d < c.entries.size := Nat.lt_of_lt_of_eq there (size_modifyEntry _ _ _)
    obtain ⟨n', w', caches⟩ := h.caches d there first
    refine ⟨n', w', caches.later reaches k l' there (.of_eq ?_) ?_⟩
    · rw [scope (k.entryScope d there).1, if_neg]
      rw [← h.root]
      exact scope_ne k k.main.1 there (first.ne)
    · rw [entry there]
      exact if_neg (first.ne)

theorem preserved_writes (wf : g.WellFormed) (size_pos : 0 < g.size) (sorted : Sorted g done)
    (rs : List Root) : Preserved g done (Writes g done rs) (Means g done) where
  idle idle h := writes_idle idle h
  later reaches held l' inside position means := means.later reaches held.kept l' inside position
  start {c i} position empty := by
    obtain ⟨n, found⟩ := Graph.exists_get? (i := Graph.positionId) ⟨zero_lt_one, size_pos⟩
    refine ⟨.position, ?_, ?_⟩
    · unfold Scope.unfold
      rw [empty]
      rfl
    · show (g.get? Graph.positionId).bind _ = _
      rw [found]
      show n.inlineBy _ _ = _
      unfold Node.inlineBy
      rw [(wf.position found).2 rfl]
  constant {c c' n v slot} held accepted op taken l' := by
    have silent := (taken.respected respected_silent).2
    cases taken with
    | again known => exact ⟨held.fact, means_constant accepted.toStands op known _⟩
    | first unknown =>
      exact ⟨held.fact.same (.single (.constantAdded _ _ _ unknown)) silent held.kept l' rfl,
        means_constant accepted.toStands op (by exact lookup_cons_self) _⟩
  inject {c c' n name shape fallback v slot} held accepted op bound fits taken l' := by
    have silent := (taken.respected respected_silent).2
    cases taken with
    | again known => exact ⟨held.fact, means_inject accepted.toStands op known _⟩
    | first unknown =>
      exact ⟨held.fact.same (.single (.injectedAdded _ _ _ unknown)) silent held.kept l' rfl,
        means_inject accepted.toStands op (by exact lookup_cons_self) _⟩
  ref {c n name shape w rest s} held accepted op inputs means := by
    refine means.passed wf sorted accepted.toStands (inputs ▸ .head _) fun slots input => ?_
    unfold Node.inlineBy
    rw [op]
    show (n.inputs.head?.join).bind input = _
    rw [inputs]
    rfl
  same {c n w s} held accepted op inputs means := by
    refine means.passed wf sorted accepted.toStands (inputs ▸ .head _) fun slots input => ?_
    unfold Node.inlineBy
    rw [op]
    show (if _ then (n.inputs.head?.join).bind input else _) = _
    rw [if_pos rfl, inputs]
    rfl
  term {c c' n ws ss} held accepted plain inputs typed means _ made l' :=
    ⟨held.fact.same (made ▸ .single (.declared _ _ _)) (made ▸ silent_declared _ _ _) held.kept l'
      (by rw [made]; rfl), means_term wf sorted accepted.toStands plain held.kept
        inputs means made l'⟩
  distance {c d c' n metric v w a b} held accepted op inputs first second made made' l' := by
    have reaches : Reaches c c' := by
      rw [made', made]
      exact .head (.declared _ _ _) (.single (.declared _ _ _))
    have silent : Silent c c' := by
      rw [made', made]
      exact (silent_declared _ _ _).trans (silent_declared _ _ _)
    exact ⟨held.fact.same reaches silent held.kept l' (by rw [made', made]; rfl),
      means_distance wf sorted accepted.toStands held.kept held.linked op inputs first
        second made made' l'⟩
  nested {c d c' n r spec t ws ss callee} held accepted parts inputs typed means _
      function made l' := by
    have reaches : Reaches c c' := made ▸ function.reaches.tail (.called _ _ _ _)
    have silent : Silent c c' :=
      made ▸ (function.respected respected_silent).2.trans (silent_called _ _ _ _)
    have size : c'.entries.size = c.entries.size := by
      rw [made]
      exact congrArg Array.size function.still.entries
    exact ⟨held.fact.same reaches silent held.kept l' size,
      means_nested wf sorted accepted.toStands held.kept held.linked held.fact.keyed parts inputs
        means function made l'⟩
  again {c n reader id} held accepted reads known l' :=
    held.fact.same (.single (.readAgain c n.id reader id reads known))
      (silent_readAgain c reader id) held.kept l' (size_readAgain c reader id)
  opened {c n reduction w reader} held accepted op inputs reads unknown l' := by
    refine held.fact.later (.single (.cacheOpened c n reader reduction reads unknown))
      (silent_cacheOpened c n reader reduction) held.kept l' fun d inside new => ?_
    rw [size_cacheOpened] at inside
    obtain rfl : d = c.entries.size := le_antisymm (Nat.le_of_lt_succ inside) new
    exact ⟨n, w, caches_opened accepted.toStands held.kept op inputs reads⟩
  closed {c c' n reduction w id s} held accepted op inputs positive inside own cached unwritten
      means made l' :=
    writes_closed accepted.toStands held.kept held.fact inputs positive inside own cached
      unwritten means made l'
  sampled {c c' n reduction id output more} held accepted op positive inside cached
    outputs _ made l' :=
    ⟨held.fact.same (made ▸ .single (.declared _ _ _)) (made ▸ silent_declared _ _ _) held.kept l'
      (by rw [made]; rfl),
      means_sampled accepted.toStands held.kept held.linked held.fact op positive inside
        cached outputs made l'⟩

theorem parsed_means (wf : g.WellFormed) (size_pos : 0 < g.size) (h : g.parsed roots o = .ok c) :
    ∃ done d, Sorted g done ∧ c = d.finished ∧
      Held done (Writes g done roots) (Means g done) d := by
  obtain ⟨done, d, sorted, -, finished, held⟩ := parsed_held (S := fun _ => True)
    (I := fun done rs => Writes g done rs) (P := fun done => Means g done) wf h
    (fun _ _ _ => trivial)
    (fun _ _ _ _ => trivial)
    (fun done => ⟨rfl, rfl, rfl, ⟨[], rfl, .nil⟩, fun d inside positive => by
      exact absurd (Nat.lt_one_iff.1 inside) positive.ne', nofun⟩)
    (fun done sorted _ rs => preserved_writes wf size_pos sorted rs)
      fun done _ {_ _ _ _ _} held found
      _ means l' => writes_rooted wf held.kept held.fact found means l'
  exact ⟨done, d, sorted, finished, held⟩

theorem parsed_writes (wf : g.WellFormed) (size_pos : 0 < g.size) (h : g.parsed roots o = .ok c) :
    ∃ done, Sorted g done ∧ Kept c ∧ Linked done c ∧ Writes g done roots c := by
  obtain ⟨done, d, sorted, rfl, held⟩ := parsed_means wf size_pos h
  exact ⟨done, sorted, kept_finished held.kept, linked_finished held.linked held.kept,
    (preserved_writes wf size_pos sorted roots).idle (idle_finished d) held.fact⟩

end

/-! ## programs -/

/-- a text has another one in it -/
def Part (part text : String) : Prop := ∃ before after, text = before ++ part ++ after

theorem Part.left {part s : String} (h : Part part s) (t : String) : Part part (s ++ t) := by
  obtain ⟨before, after, rfl⟩ := h
  exact ⟨before, after ++ t, String.append_assoc⟩

theorem Part.right {part t : String} (h : Part part t) (s : String) : Part part (s ++ t) := by
  obtain ⟨before, after, rfl⟩ := h
  exact ⟨s ++ before, after, by simp only [String.append_assoc]⟩

theorem part_join {α : Type} {f : α → String} {l : List α} {x : α} {s : String} (member : x ∈ l)
    (same : f x = s) : Part s (String.join (l.map f)) := by
  subst same
  obtain ⟨before, after, rfl⟩ := append_of_mem member
  refine ⟨String.join (before.map f), String.join (after.map f), ?_⟩
  rw [map_append, String.join_append, map_cons, String.join_cons, String.append_assoc]

theorem part_function (m : Module) {s : Scope} (member : s ∈ m.scopes) :
    Part (s.signature ++ " \x7b\n" ++
      String.join (s.lines.toList.map fun l => "\t" ++ l.text ++ "\n") ++ "\x7d\n\n") m.text := by
  unfold Module.text
  exact ((part_join (f := Module.function) member rfl).right _).left _

theorem part_entryPoint (m : Module) {d : Entry} {f : String} (member : (d, f) ∈ m.entries) :
    Part (entryHead m.workgroup d.name ++
      String.join ((entryLines m.workgroup d f).map EntryLine.text) ++ "\x7d\n\n") m.text := by
  rw [← entryPoint_text]
  unfold Module.text
  exact (part_join member rfl).right _

/-- an output of a function: the argument that it is stored to, the node whose value it has, and
what the dispatch writes -/
structure Computed where
  argument : String
  node : Option NodeId
  target : String
  shape : Shape

/-- a dispatch computes outputs: its function is given a pointer for each of them, stores in it the
inline term of the node, and what comes back goes to the buffer of the target -/
structure Computes (g : Graph) (c : Context) (d : DispatchId) (ws : List Computed) : Prop where
  args : (c.scope (c.entry d).scope).args =
    positionArgument :: ws.map fun w => ⟨w.argument, w.shape, true⟩
  outputs : (c.entry d).outputs = ws.map fun w => ⟨w.target, w.shape, "buf_" ++ w.target⟩
  stored : ((c.scope (c.entry d).scope).unfold c.meanings).stored =
    ws.map fun w => (w.argument, w.node.bind (g.inline c.slots))
  defined : ∀ w ∈ ws, (w.node.bind (g.inline c.slots)).isSome

/-- what a program computes, and where it is written -/
structure Inlined (g : Graph) (roots : List Root) (c : Context) (p : Program) : Prop where
  /-- a constant is read at a slot that holds its value -/
  constant : ∀ id k, c.slots.constant id = some k → ∃ n v, g.get? id = some n ∧
    n.op = .constant v ∧ p.parameters[k]? = some ⟨k, "", v.shape, v, false⟩
  /-- a name is read at a slot of that name -/
  injected : ∀ name k, c.slots.injected name = some k →
    ∃ v : Value, p.parameters[k]? = some ⟨k, name, v.shape, v, true⟩
  /-- the main dispatch computes the outputs of the graph -/
  main : Computes g c 0
    (roots.map fun r => ⟨"out_" ++ r.target, r.node, r.target, rootShape g r⟩)
  /-- every other one computes what a cache holds -/
  cache : ∀ d < c.entries.size, 0 < d → ∃ n w, c.cached d = some n.id ∧ g.get? n.id = some n ∧
    n.op = .cache (c.entry d).reduction ∧ n.inputs = [some w] ∧
      Computes g c d [⟨"out_value", some w.source, (c.entry d).name, n.shape⟩]
  /-- the source has the function of every dispatch, line by line under its signature -/
  function : ∀ d < c.entries.size, Part ((c.scope (c.entry d).scope).signature ++ " \x7b\n" ++
    String.join ((c.scope (c.entry d).scope).lines.toList.map fun l => "\t" ++ l.text ++ "\n") ++
      "\x7d\n\n") p.source
  /-- and an entry point, whose lines call it with a pointer for each output in order, and store
  what comes back in the buffer of the output, a truth value as a word -/
  entryPoint : ∀ d < c.entries.size,
    Part (entryHead p.workgroup (c.entry d).name ++ String.join ((entryLines p.workgroup (c.entry d)
      (c.scope (c.entry d).scope).name).map EntryLine.text) ++ "\x7d\n\n") p.source
  /-- the buffers of a dispatch are those that its entry point writes -/
  buffers : ∀ d < c.entries.size,
    (p.buffers.filter (·.dispatch == (c.entry d).name)).map outputOf = (c.entry d).outputs
  /-- no two outputs go to one buffer -/
  own : (p.buffers.map Buffer.symbol).Nodup

section
variable {g : Graph} {done : List NodeId} {c : Context}

theorem Inlines.inline (sorted : Sorted g done) (h : Inlines g done c id t) :
    g.inline c.slots id = some t := by
  have fits : rank done id ≤ g.size :=
    (rank_le_length done id).trans (length_le_size sorted.nodup fun _ => sorted.found)
  exact inlineWithin_mono (.refl _) (.refl _) (Nat.succ_le_succ fits) h

theorem inline_getD (slots : Slots) (node : Option NodeId) :
    g.inline slots (node.getD 0) = node.bind (g.inline slots) := by
  cases node with
  | some id => rfl
  | none =>
    have none : g.get? 0 = none :=
      Option.not_isSome_iff_eq_none.1 fun there => lt_irrefl 0 ((Graph.isSome_get? g 0).1 there).1
    unfold Graph.inline Graph.inlineWithin
    rw [Option.getD_none, none]
    rfl

theorem Stores.inline (sorted : Sorted g done) (h : Stores g done c i wants) :
    ((c.scope i).unfold c.meanings).stored = wants.map (fun w => (w.1, g.inline c.slots w.2)) ∧
      ∀ w ∈ wants, (g.inline c.slots w.2).isSome := by
  obtain ⟨outputs, stored, all⟩ := h
  rw [stored]
  clear stored
  induction all with
  | nil => exact ⟨rfl, nofun⟩
  | cons head _ ih =>
    have inline := head.2.inline sorted
    refine ⟨?_, forall_mem_cons.2 ⟨inline ▸ rfl, ih.2⟩⟩
    rw [map_cons, map_cons, ih.1, head.1, inline]

theorem Writes.computes_main (sorted : Sorted g done) (h : Writes g done rs c) :
    Computes g c 0 (rs.map fun r => ⟨"out_" ++ r.target, r.node, r.target, rootShape g r⟩) := by
  obtain ⟨stored, defined⟩ := h.stores.inline sorted
  refine ⟨?_, ?_, ?_, ?_⟩
  · rw [h.root, h.args, map_map]
    rfl
  · rw [h.outputs, map_map]
    rfl
  · rw [h.root, stored, map_map, map_map]
    refine map_congr_left fun r _ => ?_
    exact congrArg (Prod.mk _) (inline_getD c.slots r.node)
  · intro w member
    obtain ⟨r, there, rfl⟩ := mem_map.1 member
    have := defined _ (mem_map_of_mem there)
    rwa [inline_getD] at this

theorem Caches.computes (sorted : Sorted g done) {n : Node} (h : Caches g done c d n w)
    (written : (c.entry d).outputs ≠ []) :
    Computes g c d [⟨"out_value", some w.source, (c.entry d).name, n.shape⟩] := by
  rcases h.written with ⟨unwritten, -⟩ | ⟨outputs, stores⟩
  · exact absurd unwritten written
  · obtain ⟨stored, defined⟩ := stores.inline sorted
    exact ⟨h.args, outputs, stored,
      fun v member => mem_singleton.1 member ▸ defined _ (.head _)⟩

/-- a finished dispatch writes something: it is read, and reads are samples -/
theorem Sampled.written (all : Sampled c) (l : Linked done c)
    (inside : d < c.entries.size) (positive : 0 < d) : (c.entry d).outputs ≠ [] := by
  obtain ⟨reader, there, reads, -⟩ := l.deep.upper d inside positive
  obtain ⟨b, member, -⟩ := all reader there d reads
  intro none
  unfold Entry.buffers at member
  rw [none] at member
  cases member

theorem parsed_computes (built : g.Built) (parsed : g.parsed roots o = .ok c) :
    Computes g c 0 (roots.map fun r => ⟨"out_" ++ r.target, r.node, r.target, rootShape g r⟩) ∧
      ∀ d < c.entries.size, 0 < d → ∃ n w, c.cached d = some n.id ∧ g.get? n.id = some n ∧
        n.op = .cache (c.entry d).reduction ∧ n.inputs = [some w] ∧
          Computes g c d [⟨"out_value", some w.source, (c.entry d).name, n.shape⟩] := by
  obtain ⟨-, -, -, sampled, -⟩ := linked_of_parsed built.wellFormed parsed
  obtain ⟨done, sorted, -, l, writes⟩ := parsed_writes built.wellFormed built.size_pos parsed
  refine ⟨writes.computes_main sorted, fun d inside positive => ?_⟩
  obtain ⟨n, w, caches⟩ := writes.caches d inside positive
  exact ⟨n, w, caches.cached, caches.found, caches.op, caches.inputs,
    caches.computes sorted (sampled.written l inside positive)⟩

/-- a list is free of repetitions under `f` if each of its parts is and `f` tells the parts apart -/
theorem nodup_map_of_parts {α β γ : Type} [BEq γ] [LawfulBEq γ] {f : α → β} (part : α → γ)
    {l : List α} (each : ∀ k, ((l.filter (part · == k)).map f).Nodup)
    (apart : ∀ a ∈ l, ∀ b ∈ l, f a = f b → part a = part b) : (l.map f).Nodup := by
  induction l with
  | nil => exact nodup_nil
  | cons a l ih =>
    have rest (k : γ) : ((l.filter (part · == k)).map f).Nodup :=
      (each k).sublist (((sublist_cons_self a l).filter _).map f)
    refine nodup_cons.2 ⟨fun member => ?_, ih rest fun x hx y hy =>
      apart x (.tail _ hx) y (.tail _ hy)⟩
    obtain ⟨b, there, same⟩ := mem_map.1 member
    have own := each (part a)
    rw [filter_cons_of_pos (by exact beq_self_eq_true _), map_cons] at own
    refine (nodup_cons.1 own).1 (mem_map.2 ⟨b, mem_filter.2 ⟨there, ?_⟩, same⟩)
    exact beq_iff_eq.2 (apart b (.tail _ there) a (.head _) same)

theorem nodup_buffers (built : g.Built) (parsed : g.parsed roots o = .ok c)
    (inside : d < c.entries.size) : (c.entry d).buffers.Nodup := by
  obtain ⟨main, cache⟩ := parsed_computes built parsed
  unfold Entry.buffers
  rcases Nat.eq_zero_or_pos d with rfl | positive
  · obtain ⟨-, valid, -⟩ := parsed_ok parsed
    have buffers := (validate_fits valid).2.map (f := fun target => "buf_" ++ target)
      fun _ _ same => (String.append_right_inj _).1 same
    rw [main.outputs, map_map, map_map]
    rwa [map_map] at buffers
  · obtain ⟨n, w, -, -, -, -, computes⟩ := cache d inside positive
    rw [computes.outputs]
    exact nodup_singleton _

theorem nodup_symbols (k : Kept c) (l : Linked done c) (h : Buffered c)
    (own : ∀ d < c.entries.size, (c.entry d).buffers.Nodup) :
    (c.buffers.map Buffer.symbol).Nodup := by
  have symbols (d : DispatchId) (inside : d < c.entries.size) :
      (c.buffers.filter (·.dispatch == (c.entry d).name)).map Buffer.symbol =
          (c.entry d).buffers := by
    unfold Entry.buffers
    rw [← h.outputs d inside, map_map]
    rfl
  have written {b : Buffer} (member : b ∈ c.buffers) : ∃ d < c.entries.size,
      b.dispatch = (c.entry d).name ∧ b.symbol ∈ (c.entry d).buffers := by
    obtain ⟨d, inside, owned, -⟩ := h.owner b member
    refine ⟨d, inside, owned, symbols d inside ▸ mem_map_of_mem (mem_filter.2 ⟨member, ?_⟩)⟩
    exact beq_iff_eq.2 owned
  refine nodup_map_of_parts Buffer.dispatch (fun name => ?_) fun a ha b hb same => ?_
  · by_cases known : ∃ d < c.entries.size, name = (c.entry d).name
    · obtain ⟨d, inside, rfl⟩ := known
      exact symbols d inside ▸ own d inside
    · have none : c.buffers.filter (·.dispatch == name) = [] :=
        filter_eq_nil_iff.2 fun b member same => by
          obtain ⟨d, inside, owned, -⟩ := h.owner b member
          exact known ⟨d, inside, (beq_iff_eq.1 same).symm.trans owned⟩
      rw [none]
      exact nodup_nil
  · obtain ⟨d, inside, owned, there⟩ := written ha
    obtain ⟨e, inside', owned', there'⟩ := written hb
    rw [owned, owned']
    rw [same] at there
    rcases Nat.eq_zero_or_pos d with rfl | positive <;>
      rcases Nat.eq_zero_or_pos e with rfl | positive'
    · rfl
    · -- outputs are not named like caches
      obtain ⟨n, -, cache⟩ := k.cacheNames e inside' positive'
      exact absurd (cache ▸ l.buffer e inside' positive' _ there') (l.main _ there n)
    · obtain ⟨n, -, cache⟩ := k.cacheNames d inside positive
      exact absurd (cache ▸ l.buffer d inside positive _ there) (l.main _ there' n)
    · have := (l.buffer d inside positive _ there).symm.trans
        (l.buffer e inside' positive' _ there')
      exact (String.append_right_inj _).1 this

end

end Compile

open Compile

/-- **Generated functions compute the graph.**  With all locals replaced by what defines them, the
function of the main dispatch stores the inline terms of the outputs and that of every other
dispatch the inline term of what a cache holds; entry points write each of them to a buffer
of its own. -/
theorem compile_inlined {g : Graph} (built : g.Built) {roots : List Root} {o : Options}
    {p : Program} (h : g.compile roots o = .ok p) :
    ∃ c, g.parsed roots o = .ok c ∧ p = c.toProgram ∧ Inlined g roots c p := by
  obtain ⟨c, parsed, rfl⟩ := compile_ok_iff.1 h
  obtain ⟨done, l, k, -, perm⟩ := linked_of_parsed built.wellFormed parsed
  have tables := parsed_registered built.wellFormed parsed
  have scopes := parsed_scopes parsed
  obtain ⟨main, cache⟩ := parsed_computes built parsed
  refine ⟨c, parsed, rfl, ?_, ?_, main, cache, ?_, ?_, tables.buffered.outputs,
    nodup_symbols k l tables.buffered fun d inside => nodup_buffers built parsed inside⟩
  · exact fun id slot known => tables.slotted.constant (id, slot) (mem_of_lookup known)
  · intro name slot known
    obtain ⟨-, -, -, v, -, -, -, listed⟩ :=
      tables.slotted.injected (name, slot) (mem_of_lookup known)
    exact ⟨v, listed⟩
  · intro d inside
    have written := scopes.mem_iff.2 (List.mem_range.2 (k.entryScope d inside).1)
    exact part_function c.module (List.mem_map_of_mem written)
  · intro d inside
    have listed := List.mem_map_of_mem (f := c.entry) (perm.mem_iff.2 (List.mem_range.2 inside))
    exact part_entryPoint c.module (List.mem_map.2 ⟨_, listed, rfl⟩)

/-- a constant that is used by a cache, and again beside it and next to a distance -/
def cachedConstant : Graph :=
  let g := (Graph.initial.insert (.constant (.scalar .one)) []).2
  let g := (g.insert (.cache 0) [.node 2]).2
  let g := (g.insert (.distance .euclidean) [.node 1, .node 1]).2
  let g := (g.insert (.binary .add) [.node 3, .node 4]).2
  (g.insert (.binary .sub) [.node 5, .node 2]).2

theorem built_cachedConstant : cachedConstant.Built :=
  .insert _ _ (.insert _ _
    (.insert _ _ (.insert _ _ (.insert _ _ .initial (by simp) rfl) (by simp) rfl)
    (by simp) rfl) (by simp) rfl) (by simp) rfl

theorem compile_inlined_shared :
    ∃ p c, cachedConstant.compile [⟨"density", some 6⟩] ⟨[], some [], 0⟩ = .ok p ∧
      c.entries.toList.map Entry.name = ["voxels", "cache_1"] ∧ c.constantSlots = [(2, 0)] ∧
        Inlined cachedConstant [⟨"density", some 6⟩] c p := by
  obtain ⟨c, parsed, names, slots⟩ :
      ∃ c, cachedConstant.parsed [⟨"density", some 6⟩] ⟨[], some [], 0⟩ = .ok c ∧
        c.entries.toList.map Entry.name = ["voxels", "cache_1"] ∧ c.constantSlots = [(2, 0)] := by
    decide +kernel
  have compiled : cachedConstant.compile [⟨"density", some 6⟩] ⟨[], some [], 0⟩ =
      .ok c.toProgram :=
    compile_ok_iff.2 ⟨c, parsed, rfl⟩
  obtain ⟨c', parsed', -, inlined⟩ := compile_inlined built_cachedConstant compiled
  cases parsed.symm.trans parsed'
  exact ⟨c.toProgram, c, compiled, names, slots, inlined⟩

end Terrain
