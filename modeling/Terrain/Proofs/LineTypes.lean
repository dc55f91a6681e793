import Terrain.Proofs.Shapes
import Terrain.Proofs.Terms
import Terrain.Proofs.WellScoped

/-!
# Types of generated lines

While code is generated, functions get more lines, outputs get arguments and buffers are made, so
the types of what a line names are not all settled when the line is written.  Each line is therefore
tied to what settles its type: to the lines before it, to the node of the cache that it samples or
computes, to the output that it stores, to the function that it calls.

* `typeBehind`        the type of a symbol behind some lines;
* `LineTyped`         what a line of a dispatch's function is tied to;
* `Checked`           what holds of all functions while code is generated;
* `preserved_checked` the rules keep it;
* `parsed_checked`    it holds of the context that a compilation leaves.
-/

namespace Terrain.Compile

open Kernel Hash List

variable {ls : List Indented} {s : Symbol} {n : Node}

/-! ## symbols -/

def typeBehind (ls : List Indented) : Symbol → Option Ty
  | .var .position => some (.vec 3 .f32)
  | .var v => (ls.findSome? (declaredShape v)).bind Ty.ofShape?
  | .param _ s => slotType? s

/-- what can be named behind some lines, buffers apart -/
def namesBehind (ls : List Indented) : Names := ⟨fun v => typeBehind ls (.var v), fun _ => none⟩

theorem type_behind (ls : List Indented) (s : Symbol) :
    s.type? (namesBehind ls) = typeBehind ls s := by
  cases s <;> rfl

theorem typeBehind_append {t : Ty} (h : typeBehind ls s = some t)
    (more : List Indented) : typeBehind (ls ++ more) s = some t := by
  unfold typeBehind at h ⊢
  split
  case h_1 => exact h
  case h_3 => exact h
  case h_2 v other =>
    have found : (ls.findSome? (declaredShape v)).bind Ty.ofShape? = some t := by
      cases v <;> first | exact h | exact absurd rfl other
    obtain ⟨shape, first, type⟩ := Option.bind_eq_some_iff.1 found
    rw [findSome?_append, first]
    exact type

theorem slotType_eq {s : Shape} (defined : s.isDefined = true) : slotType? s = Ty.ofShape? s := by
  cases s <;> first | decide | cases defined

/-- a symbol has the type of its node, which has one of the six shapes -/
abbrev TypedAs (g : Graph) : Context → ScopeId → NodeId → Symbol → Prop :=
  OfShape g fun c i shape s =>
    shape.isDefined = true ∧ typeBehind (c.scope i).lines.toList s = Ty.ofShape? shape

/-! ## lines -/

inductive LineTyped (g : Graph) (rs : List Root) (c : Context) (i : ScopeId)
    (before : List Indented) : Line → Prop
  /-- a local of the type of its expression -/
  | bind {v : Var} {s : Shape} {e : Expr} (defined : s.isDefined = true)
      (typed : HasShape (namesBehind before) e s) : LineTyped g rs c i before (.bind v s e)
  /-- a sample of a cache, from a buffer that the dispatch of the cache writes -/
  | sample {v : Var} {n : Node} {d : DispatchId} {output : Output} {reduction : Int}
      (positive : 0 < d) (inside : d < c.entries.size) (cached : c.cached d = some n.id)
      (found : g.get? n.id = some n) (written : output ∈ (c.entry d).outputs)
      (defined : n.shape.isDefined = true) (other : n.shape ≠ .bool)
      (range : 0 ≤ reduction ∧ reduction ≤ maxReduction) :
      LineTyped g rs c i before (.bind v n.shape (sampleExpr output.buffer reduction))
  | declare {v : Var} {s : Shape} (defined : s.isDefined = true) :
      LineTyped g rs c i before (.declare v s)
  /-- a call of a nested function, over symbols of the types of its arguments -/
  | call {v : Var} {ss : List Symbol} {callee : ScopeId} {shapes : List Shape}
      (inside : callee < c.scopes.size) (nested : (c.scope callee).hasPosition = false)
      (args : (c.scope callee).args = functionArguments shapes .float)
      (given : Forall₂ (fun s shape => shape.isDefined = true ∧
        typeBehind before s = Ty.ofShape? shape) ss shapes)
      (declared : ⟨0, .declare v .float⟩ ∈ before) :
      LineTyped g rs c i before (.call (c.scope callee).name ss v)
  /-- the value of a cache -/
  | stored {n : Node} {d : DispatchId} {s : Symbol} (positive : 0 < d) (inside : d < c.entries.size)
      (own : (c.entry d).scope = i) (cached : c.cached d = some n.id) (found : g.get? n.id = some n)
      (defined : n.shape.isDefined = true) (typed : typeBehind before s = Ty.ofShape? n.shape) :
      LineTyped g rs c i before (.store "out_value" (.sym s))
  /-- the value of an output -/
  | output {r : Root} {n : Node} {s : Symbol} (own : i = rootId) (member : r ∈ rs)
      (found : r.node.bind g.get? = some n) (defined : n.shape.isDefined = true)
      (typed : typeBehind before s = Ty.ofShape? n.shape) :
      LineTyped g rs c i before (.store ("out_" ++ r.target) (.sym s))

/-- lines one after the other -/
def LinesTyped (g : Graph) (rs : List Root) (c : Context) (i : ScopeId) :
    List Indented → List Indented → Prop
  | _, [] => True
  | before, l :: ls => LineTyped g rs c i before l.line ∧ LinesTyped g rs c i (before ++ [l]) ls

/-- what lines are tied to stays in place -/
structure Ties (c c' : Context) : Prop where
  scopes : c.scopes.size ≤ c'.scopes.size
  name : ∀ i < c.scopes.size, (c'.scope i).name = (c.scope i).name
  placed : ∀ i < c.scopes.size, (c'.scope i).hasPosition = (c.scope i).hasPosition
  args : ∀ i < c.scopes.size, (c.scope i).hasPosition = false → (c'.scope i).args = (c.scope i).args
  entries : c.entries.size ≤ c'.entries.size
  scope : ∀ d < c.entries.size, (c'.entry d).scope = (c.entry d).scope
  outputs : ∀ d < c.entries.size, (c.entry d).outputs ⊆ (c'.entry d).outputs
  cached : ∀ d < c.entries.size, c'.cached d = c.cached d

section
variable {g : Graph} {rs rs' : List Root} {c c' : Context} {i : ScopeId} {before : List Indented}

theorem Reaches.ties (reaches : Reaches c c')
    (args : ∀ i < c.scopes.size, (c.scope i).hasPosition = false →
      (c'.scope i).args = (c.scope i).args) : Ties c c' where
  scopes := reaches.grows.scopes
  name i inside := (reaches.grows.scope i inside).name
  placed i inside := (reaches.grows.scope i inside).placed
  args := args
  entries := reaches.grows.entries
  scope d inside := (reaches.grows.entry d inside).scope
  outputs d inside := (reaches.grows.entry d inside).outputs.subset
  cached _ inside := reaches.cached inside

theorem Idle.ties (idle : Idle c c') : Ties c c' where
  scopes := idle.scopes.symm.le
  name i _ := idle.name i
  placed i _ := idle.placed i
  args i _ _ := idle.args i
  entries := le_of_eq (congrArg Array.size idle.entries).symm
  scope d _ := congrArg Entry.scope (idle.entry d)
  outputs d _ := by rw [idle.entry d]; exact Subset.refl _
  cached d _ := cached_congr idle.caches d

theorem LineTyped.later {l : Line} (h : LineTyped g rs c i before l) (ties : Ties c c')
    (more : rs ⊆ rs') : LineTyped g rs' c' i before l := by
  cases h with
  | bind defined typed => exact .bind defined typed
  | declare defined => exact .declare defined
  | @sample v n d output reduction positive inside cached found written defined other range =>
    refine .sample positive (inside.trans_le ties.entries) ?_ found ?_ defined other range
    · exact (ties.cached d inside).trans cached
    · exact ties.outputs d inside written
  | @call v ss callee shapes inside nested same given declared =>
    rw [← ties.name callee inside]
    refine .call (inside.trans_le ties.scopes) ?_ ?_ given declared
    · exact (ties.placed callee inside).trans nested
    · exact (ties.args callee inside nested).trans same
  | @stored n d s positive inside own cached found defined typed =>
    refine .stored positive (inside.trans_le ties.entries) ?_ ?_ found defined typed
    · exact (ties.scope d inside).trans own
    · exact (ties.cached d inside).trans cached
  | output own member found defined typed => exact .output own (more member) found defined typed

theorem LinesTyped.later (h : LinesTyped g rs c i before ls) (ties : Ties c c') (more : rs ⊆ rs') :
    LinesTyped g rs' c' i before ls := by
  induction ls generalizing before with
  | nil => trivial
  | cons l ls ih => exact ⟨h.1.later ties more, ih h.2⟩

theorem LinesTyped.append {ms : List Indented} (h : LinesTyped g rs c i before ls)
    (h' : LinesTyped g rs c i (before ++ ls) ms) : LinesTyped g rs c i before (ls ++ ms) := by
  induction ls generalizing before with
  | nil => simpa using h'
  | cons l ls ih =>
    refine ⟨h.1, ih h.2 ?_⟩
    rwa [append_assoc]

end

/-! ## functions -/

/-- a nested function takes what its key says -/
def Shared (c : Context) (p : String × ScopeId) : Prop :=
  p.2 < c.scopes.size ∧ (c.scope p.2).hasPosition = false ∧
    ∃ head rest shapes, (head, shapes) ∈ keyHeads ∧
    p.1 = head ++ rest ∧ (c.scope p.2).args = functionArguments shapes .float

/-- functions of dispatches have lines that are tied to what types them, nested ones are well typed,
and grids are not finer than the segment -/
structure Checked (g : Graph) (rs : List Root) (c : Context) : Prop extends
    Lined (fun c i ls => LinesTyped g rs c i [] ls) (fun s => ∀ Γ, FunctionTyped Γ s) c where
  shared : ∀ p ∈ c.nested, Shared c p
  reduction : ∀ d < c.entries.size, 0 ≤ (c.entry d).reduction ∧ (c.entry d).reduction ≤ maxReduction

section
variable {g : Graph} {rs rs' : List Root} {c c' : Context} {done : List NodeId}

theorem FunctionTyped.congr {Γ : Globals} {s s' : Scope} (h : FunctionTyped Γ s)
    (args : s'.args = s.args) (lines : s'.lines = s.lines) : FunctionTyped Γ s' := by
  refine ⟨?_, ?_⟩
  · rw [args]
    exact h.args
  · rw [args, lines]
    exact h.body

theorem Shared.later {p : String × ScopeId} (h : Shared c p) (grows : Grows c c')
    (same : (c.scope p.2).hasPosition = false → (c'.scope p.2).args = (c.scope p.2).args) :
    Shared c' p := by
  obtain ⟨inside, position, head, rest, shapes, listed, key, args⟩ := h
  exact ⟨inside.trans_le grows.scopes, (grows.scope p.2 inside).placed.trans position, head, rest,
    shapes, listed, key, (same position).trans args⟩

section
variable (h : Checked g rs c)
include h

theorem Checked.push (more : rs ⊆ rs') {j : ScopeId} (w : Wrote c c' j ls)
    (typed : LinesTyped g rs' c' j (c.scope j).lines.toList ls) :
    Checked g rs' c' := by
  have grows := w.reaches.grows
  have ties := w.reaches.ties fun i inside position => by rw [w.unplaced inside position]
  refine ⟨h.toLined.push w (fun old => old.later ties more) fun _ before =>
    (before.later ties more).append typed, fun p member => ?_, fun d inside => ?_⟩
  · have old := h.shared p (w.nested ▸ member)
    exact old.later grows fun position => by rw [w.unplaced old.1 position]
  · rw [w.entries] at inside
    rw [(grows.entry d inside).reduction]
    exact h.reduction d inside

theorem Checked.opens (opens : Opens (fun s => ∀ Γ, FunctionTyped Γ s) c c')
    (nested : ∀ p ∈ c'.nested, p ∈ c.nested ∨ Shared c' p)
    (entries : ∀ d < c'.entries.size, c.entries.size ≤ d →
      0 ≤ (c'.entry d).reduction ∧ (c'.entry d).reduction ≤ maxReduction) :
    Checked g rs c' := by
  have grows := opens.reaches.grows
  have ties := opens.reaches.ties fun i inside _ => by rw [opens.old i inside]
  refine ⟨h.toLined.opens opens (fun old => old.later ties (Subset.refl _)) fun _ => trivial,
    fun p member => ?_, fun d inside => ?_⟩
  · rcases nested p member with old | fresh
    · have old := h.shared p old
      exact old.later grows fun _ => by rw [opens.old _ old.1]
    · exact fresh
  · rcases lt_or_ge d c.entries.size with old | fresh
    · rw [(grows.entry d old).reduction]
      exact h.reduction d old
    · exact entries d inside fresh

theorem Checked.same (opens : Opens (fun s => ∀ Γ, FunctionTyped Γ s) c c')
    (nested : c'.nested = c.nested) (entries : c'.entries.size = c.entries.size) :
    Checked g rs c' :=
  h.opens opens (fun _ member => .inl (nested ▸ member))
    fun _ inside fresh => absurd (entries ▸ inside) (not_lt.2 fresh)

theorem Checked.idle (idle : Idle c c') : Checked g rs c' where
  toLined := h.toLined.idle idle (fun old => old.later idle.ties (Subset.refl _))
    fun args lines typed Γ => (typed Γ).congr args lines
  shared p member := by
    rw [idle.nested] at member
    unfold Shared
    rw [idle.scopes, idle.placed p.2, idle.args p.2]
    exact h.shared p member
  reduction d inside := by
    rw [idle.entries] at inside
    rw [idle.entry d]
    exact h.reduction d inside

end

/-! ## symbols of nodes -/

theorem TypedAs.later {i : ScopeId} {id : NodeId} (h : TypedAs g c i id s) (grows : Grows c c')
    (inside : i < c.scopes.size) : TypedAs g c' i id s := by
  obtain ⟨n, found, defined, type⟩ := h
  refine ⟨n, found, defined, ?_⟩
  obtain ⟨ls, lines, -⟩ := (grows.scope i inside).lines
  obtain ⟨t, same⟩ := Ty.exists_ofShape defined
  rw [same] at type ⊢
  rw [lines]
  exact typeBehind_append type ls

theorem hasShape_sym {σ : Shape}
    (h : typeBehind ls s = Ty.ofShape? σ) : HasShape (namesBehind ls) (.sym s) σ :=
  (type_behind ls s).trans h

theorem typeBehind_concat {v : Var} {l : Indented} {σ : Shape}
    (unknown : ls.findSome? (declaredShape v) = none) (declares : l.line.declares = some (v, σ))
    (other : v ≠ .position) (more : List Indented) :
    typeBehind (ls ++ l :: more) (.var v) = Ty.ofShape? σ := by
  have here : declaredShape v l = some σ := by
    unfold declaredShape
    rw [declares]
    exact if_pos rfl
  have found : (ls ++ l :: more).findSome? (declaredShape v) = some σ := by
    rw [findSome?_append, unknown, Option.none_or, findSome?_cons, here]
  unfold typeBehind
  split
  case h_1 same => cases same; exact absurd rfl other
  case h_2 w _ same =>
    cases same
    rw [found]
    rfl
  case h_3 same => cases same

/-! ## more lines -/

theorem Checked.declared (h : Checked g rs c) (k : Kept c) {shape : Shape} {e : Expr}
    (typed : LineTyped g rs (c.declared shape e) c.current (c.scope c.current).lines.toList
      (.bind (.bound (c.names + 1)) shape e)) : Checked g rs (c.declared shape e) :=
  h.push (Subset.refl _) (wrote_declared k shape e) ⟨typed, trivial⟩

theorem typeBehind_declared (k : Kept c) (shape : Shape) (e : Expr) :
    typeBehind ((c.declared shape e).scope c.current).lines.toList c.nextBound =
      Ty.ofShape? shape := by
  obtain ⟨inside, position⟩ := k.current
  rw [(wrote_declared k shape e).lines]
  exact typeBehind_concat (declaredShape_none k inside position (lt_add_one _) (.inl rfl)) rfl
    (by simp) []

theorem Checked.called (h : Checked g rs c) (k : Kept c) {callee : ScopeId} {shapes : List Shape}
    {ss : List Symbol} (inside : callee < c.scopes.size)
    (nested : (c.scope callee).hasPosition = false)
    (args : (c.scope callee).args = functionArguments shapes .float)
    (given : Forall₂ (fun s shape => shape.isDefined = true ∧
      typeBehind (c.scope c.current).lines.toList s = Ty.ofShape? shape) ss shapes) :
    Checked g rs (c.called (c.scope callee).name .float ss) := by
  have wrote := wrote_called k (c.scope callee).name .float ss
  have same := wrote.unplaced inside nested
  refine h.push (Subset.refl _) wrote ⟨.declare rfl, ?_, trivial⟩
  have typed : LineTyped g rs (c.called (c.scope callee).name .float ss) c.current
      ((c.scope c.current).lines.toList ++ [⟨0, .declare (.result (c.names + 1)) .float⟩])
      (.call ((c.called (c.scope callee).name .float ss).scope callee).name ss
        (.result (c.names + 1))) := by
    refine .call (Nat.lt_of_lt_of_eq inside wrote.size.symm) ?_ ?_
      (given.imp fun s shape h => ?_) mem_append_cons_self
    · rw [same]
      exact nested
    · rw [same]
      exact args
    · obtain ⟨t, type⟩ := Ty.exists_ofShape h.1
      refine ⟨h.1, ?_⟩
      rw [type]
      exact typeBehind_append (h.2.trans type) _
  rw [same] at typed
  exact typed

theorem typedAs_called (k : Kept c) (found : g.get? n.id = some n)
    (float : n.shape = .float) (function : String) (ss : List Symbol) :
    TypedAs g (c.called function .float ss) c.current n.id (.var (.result (c.names + 1))) := by
  obtain ⟨inside, position⟩ := k.current
  refine ⟨n, found, by rw [float]; rfl, ?_⟩
  rw [(wrote_called k function .float ss).lines, float]
  exact typeBehind_concat (declaredShape_none k inside position (lt_add_one _) (.inr rfl)) rfl
    (by simp) _

theorem Checked.nestedAdded (h : Checked g rs c) (caller : ScopeId) {spec : Nested} {ws : List Wire}
    {t : Template} (unknown : c.nested.lookup spec.key = none)
    (typed : ∀ Γ, FunctionTyped Γ (c.nestedScope caller spec ws t)) (float : spec.result = .float)
    {head rest : String} (listed : (head, ws.map Wire.shape) ∈ keyHeads)
    (key : spec.key = head ++ rest) :
    Checked g rs (c.nestedAdded caller spec ws t) ∧
      c.scopes.size < (c.nestedAdded caller spec ws t).scopes.size ∧
      ((c.nestedAdded caller spec ws t).scope c.scopes.size).hasPosition = false ∧
      ((c.nestedAdded caller spec ws t).scope c.scopes.size).args =
        functionArguments (ws.map Wire.shape) .float := by
  have scope := scope_nestedAdded (c := c) caller spec ws t
  have position : ((c.nestedAdded caller spec ws t).scope c.scopes.size).hasPosition = false := by
    rw [scope]
    rfl
  have args : ((c.nestedAdded caller spec ws t).scope c.scopes.size).args =
      functionArguments (ws.map Wire.shape) .float := by
    rw [scope, args_nestedScope, float]
  have inside : c.scopes.size < (c.nestedAdded caller spec ws t).scopes.size :=
    Nat.lt_of_lt_of_eq (lt_add_one _) (Array.size_push _).symm
  refine ⟨h.opens (opens_nestedAdded unknown typed) (fun p member => ?_) fun d old fresh => ?_,
    inside, position, args⟩
  · rcases mem_cons.1 member with rfl | old
    · exact .inr ⟨inside, position, head, rest, _, listed, key, args⟩
    · exact .inl old
  · exact absurd old (not_lt.2 fresh)

theorem Checked.function (h : Checked g rs c) (wf : g.WellFormed) {r : Routine} {spec : Nested}
    {t : Template} {ws : List Wire} {callee : ScopeId} (accepted : Accepted g done n)
    (parts : nestedParts n = some (r, spec, t)) (inputs : n.inputs = ws.map some)
    (function : FunctionOf spec ws t c callee c') :
    Checked g rs c' ∧ callee < c'.scopes.size ∧ (c'.scope callee).hasPosition = false ∧
      (c'.scope callee).args = functionArguments (ws.map Wire.shape) .float := by
  have accepts := wf.accepts accepted.found inputs accepted.typed (isLeaf_of_parts parts)
  obtain ⟨head, rest, listed, key⟩ := exists_keyHead parts inputs accepted.typed accepts
  cases function with
  | again known =>
    obtain ⟨inside, position, head', rest', shapes, listed', key', args⟩ :=
      h.shared _ (mem_of_lookup known)
    have idle := idle_deepened (c.fold ([Tag.scopeCall] ++ Token.str (c.scope callee).name)) callee
      (c.currentScope.depth + 1)
    refine ⟨(h.idle (idle_fold c _)).idle idle, ?_, ?_, ?_⟩
    · rw [idle.scopes]
      exact inside
    · rw [idle.placed callee]
      exact position
    · rw [idle.args callee, shapes_of_keyHeads listed listed' (key.symm.trans key')]
      exact args
  | first unknown =>
    have float := (samples_of_parts parts inputs accepts accepted.octaves).1
    exact (h.idle (idle_fold c _)).nestedAdded _ unknown
      (typed_nested _ _ parts inputs accepts accepted.octaves) float listed key

/-! ## rules -/

theorem slotShape {slot : Nat} {shape : Shape} (found : g.get? n.id = some n)
    (own : n.shape = shape) (defined : shape.isDefined = true) (i : ScopeId) :
    TypedAs g c i n.id (.param slot shape) := by
  refine ⟨n, found, own ▸ defined, ?_⟩
  rw [own]
  exact slotType_eq defined

theorem preserved_checked (wf : g.WellFormed) (size_pos : 0 < g.size) (rs : List Root)
    (declared : ∀ {n name shape fallback}, n.id ∈ done → g.get? n.id = some n →
      n.op = .inject name shape fallback → shape.isDefined = true) :
    Preserved g done (Checked g rs) (TypedAs g) where
  idle idle h := h.idle idle
  later reaches _ _ inside _ typed := typed.later reaches.grows inside
  start _ _ := ofShape_position wf size_pos ⟨rfl, rfl⟩
  constant {c c' n v slot} held accepted op taken l' := by
    have own : n.shape = v.shape := accepted.shape fun _ => by rw [op]; rfl
    exact ⟨held.fact.same taken.opens (by cases taken <;> rfl) (by cases taken <;> rfl),
      slotShape accepted.found own (accepted.constant op) _⟩
  inject {c c' n name shape fallback v slot} held accepted op bound fits taken l' := by
    have own : n.shape = shape := accepted.shape fun _ => by rw [op]; rfl
    exact ⟨held.fact.same taken.opens (by cases taken <;> rfl) (by cases taken <;> rfl),
      slotShape accepted.found own (declared accepted.member accepted.found op) _⟩
  ref _ accepted op inputs typed := typed.ref wf accepted op inputs
  same _ accepted op inputs typed := typed.same wf accepted op inputs
  term {c c' n ws ss} held accepted plain inputs typed symbols _ made l' := by
    have defined := accepted.plain wf plain
    have accepts := wf.accepts accepted.found inputs typed (isLeaf_of_isPlain plain)
    have operands : Forall₂ (fun (w : Wire) e =>
        HasShape (namesBehind (c.scope c.current).lines.toList) e w.shape) ws
            (ss.map Expr.sym) := by
      rw [forall₂_map_right_iff]
      exact (OfShape.inputs wf accepted.found inputs symbols).imp fun _ _ h => hasShape_sym h.2
    subst made
    exact ⟨held.fact.declared held.kept (.bind defined (type_term inputs accepts plain operands)),
      n, accepted.found, defined, typeBehind_declared held.kept _ _⟩
  distance {c d c' n metric v w a b} held accepted op inputs first second made made' l' := by
    have accepts : (Op.distance metric).Accepts [v.shape, w.shape] n.shape := by
      rw [← op]
      exact @Graph.WellFormed.accepts g wf n [v, w] accepted.found inputs
        accepted.typed (by rw [op]; rfl)
    have point : n.inputShape 0 = v.shape := @inputShape_zero n [v, w] inputs _ _ rfl
    obtain ⟨float, same, result⟩ : v.shape.isFloatLike = true ∧ w.shape = v.shape ∧
        n.shape = .float := by
      generalize v.shape = x, w.shape = y, n.shape = z at accepts
      cases accepts with
      | distance known float => exact ⟨float, rfl, rfl⟩
    obtain ⟨⟨-, left⟩, ⟨-, right⟩⟩ : _ ∧ _ := by
      have member (u : Wire) (there : u ∈ [v, w]) : some u ∈ n.inputs :=
        inputs ▸ mem_map_of_mem there
      exact ⟨first.input wf accepted.found (member v (by simp)),
        second.input wf accepted.found (member w (by simp))⟩
    rw [same] at right
    have difference : HasShape (namesBehind (c.scope c.current).lines.toList)
        (.sub (.sym a) (.sym b)) (n.inputShape 0) := by
      rw [point]
      exact (hasShape_sym left).sub (hasShape_sym right) float
    have float : (n.inputShape 0).isFloatLike = true := point ▸ float
    have defined : n.shape.isDefined = true := by rw [result]; rfl
    have checked : Checked g rs d := by
      rw [made]
      exact held.fact.declared held.kept (.bind (isDefined_of_isFloatLike float) difference)
    have kept : Kept d := made ▸ (Change.declared c _ _).kept held.kept
    have current : d.current = c.current := by rw [made]; rfl
    have delta : typeBehind (d.scope d.current).lines.toList c.nextBound =
        Ty.ofShape? (n.inputShape 0) := by
      rw [current, made]
      exact typeBehind_declared held.kept _ _
    have size : HasShape (namesBehind (d.scope d.current).lines.toList)
        (.metric metric (.sym c.nextBound) (n.inputShape 0)) n.shape := by
      rw [result]
      exact type_metric metric (hasShape_sym delta) float
    rw [made', ← current]
    exact ⟨checked.declared kept (.bind defined size), n, accepted.found, defined,
      typeBehind_declared kept _ _⟩
  nested {c d c' n r spec t ws ss callee} held accepted parts inputs typed symbols _
      function made l' := by
    obtain ⟨checked, inside, position, args⟩ := held.fact.function wf accepted parts inputs function
    have kept := function.reaches.kept held.kept
    have current : d.current = c.current := by cases function <;> rfl
    have float : spec.result = .float := by
      unfold nestedParts at parts
      split at parts <;> cases parts <;> rfl
    have given : Forall₂ (fun s shape => shape.isDefined = true ∧
        typeBehind (d.scope d.current).lines.toList s = Ty.ofShape? shape) ss
            (ws.map Wire.shape) := by
      have later := symbols.imp fun _ _ h => h.later function.reaches.grows held.kept.current.1
      rw [← current] at later
      rw [forall₂_map_right_iff]
      exact (OfShape.inputs wf accepted.found inputs later).flip
    rw [made, float, ← current]
    exact ⟨checked.called kept inside position args given,
      typedAs_called kept accepted.found ((shape_of_nested parts typed).trans float) _ _⟩
  again {c n reader id} held accepted reads known l' :=
    held.fact.same (opens_readAgain reads known) (by rw [readAgain_frame])
      (size_readAgain c reader id)
  opened {c n reduction w reader} held accepted op inputs reads unknown l' := by
    refine held.fact.opens (opens_cacheOpened reduction reads unknown)
      (fun _ => .inl) fun d inside fresh => ?_
    rw [size_cacheOpened] at inside
    obtain rfl : d = c.entries.size := le_antisymm (Nat.le_of_lt_succ inside) fresh
    rw [entry_cacheOpened n reduction (held.kept.reader reads).1]
    exact accepted.reduction op
  closed {c c' n reduction w id s} held accepted op inputs positive inside own
    cached unwritten typed
      made l' := by
    have accepts : (Op.cache reduction).Accepts [w.shape] n.shape := by
      rw [← op]
      exact @Graph.WellFormed.accepts g wf n [w] accepted.found inputs
        accepted.typed (by rw [op]; rfl)
    have same : n.shape = w.shape := by
      generalize w.shape = x, n.shape = y at accepts
      cases accepts with
      | cache defined other => rfl
    obtain ⟨defined, type⟩ :=
      (typed.passed wf accepted.found (inputs ▸ .head _) same).own accepted.found
    have wrote : Wrote c c' c.current _ :=
      made ▸ wrote_cacheClosed held.kept id (c.entry id).name n.shape s
    have grows := wrote.reaches.grows
    refine held.fact.push (Subset.refl _) wrote ⟨.stored positive (inside.trans_le grows.entries)
      ?_ ?_ accepted.found defined type, trivial⟩
    · rw [(grows.entry id inside).scope]
      exact own
    · exact (wrote.reaches.cached inside).trans cached
  sampled {c c' n reduction id output more} held accepted op positive inside cached
      outputs _ made l' := by
    obtain ⟨ws, inputs, -⟩ := typed_operands accepted.typed
    have defined := accepted.cached wf op
    have other : n.shape ≠ .bool := by
      have accepts := wf.accepts accepted.found inputs accepted.typed (by rw [op]; rfl)
      rw [op] at accepts
      generalize ws.map Wire.shape = shapes, n.shape = y at accepts
      cases accepts with
      | cache defined other => exact other
    subst made
    refine ⟨held.fact.declared held.kept
      (.sample positive inside cached accepted.found ?_ defined other
      (accepted.reduction op)), n, accepted.found, defined, typeBehind_declared held.kept _ _⟩
    show output ∈ (c.entry id).outputs
    rw [outputs]
    exact .head _

theorem checked_opened (g : Graph) (o : Options) : Checked g [] (Context.opened o) := by
  refine ⟨⟨fun i inside _ => ?_, fun i inside position => ?_⟩, nofun, fun d inside => ?_⟩
  all_goals obtain rfl := Nat.lt_one_iff.1 inside
  · trivial
  · cases position
  · exact ⟨Int.le_refl 0, Int.zero_le_ofNat 8⟩

theorem Checked.rooted (h : Checked g rs c) (k : Kept c) {r : Root}
    (found : r.node.bind g.get? = some n) (typed : TypedAs g c rootId n.id s)
    (own : g.get? n.id = some n) : Checked g (rs ++ [r]) (c.rooted r n.shape s) := by
  obtain ⟨defined, type⟩ := typed.own own
  exact h.push (subset_append_left _ _) (wrote_rooted k r n.shape s)
    ⟨.output rfl mem_append_cons_self found defined type, trivial⟩

/-- lines are typed when a compilation is over, and so is the symbol of every node, if the outputs
rest on parameters that are asked for in one of the six shapes -/
theorem parsed_checked (built : g.Built) {S : NodeId → Prop} [DecidablePred S] {roots : List Root}
    {o : Options} (h : g.parsed roots o = .ok c)
    (closed : ∀ {id n w}, S id → g.get? id = some n → some w ∈ n.inputs → S w.source)
    (outputs : ∀ r ∈ roots, ∀ n, r.node.bind g.get? = some n → S n.id)
    (declared : ∀ {n name shape fallback}, S n.id → g.get? n.id = some n →
      n.op = .inject name shape fallback → shape.isDefined = true) :
    Checked g roots c ∧ ∀ i < c.scopes.size, (c.scope i).hasPosition = true →
      ∀ p ∈ (c.scope i).symbols, TypedAs g c i p.1 p.2 := by
  obtain ⟨done, d, -, -, rfl, held⟩ := parsed_held (I := fun _ rs => Checked g rs)
    (P := fun _ => TypedAs g) built.wellFormed h closed outputs (fun _ => checked_opened g o)
    (fun done _ part rs => preserved_checked built.wellFormed built.size_pos rs
      fun member => declared (part _ member))
    fun _ _ {_ _ _ _ _} held found stands typed _ =>
      held.fact.rooted held.kept found typed stands.found
  exact ⟨held.fact.idle (idle_finished d), held.symbols⟩

end

end Terrain.Compile
