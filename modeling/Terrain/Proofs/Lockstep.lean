import Terrain.Proofs.Alike
import Terrain.Proofs.Invariant

/-!
# One stream, one code

Two compilations that end with the same stream go in step: whatever one of them folds, the other
folds at the same moment, and the bytes tell which rule is applied.  So their contexts look alike
from the first output to the last.

* `Solid`                  the symbol of a node has its shape;
* `OneStream.texts`        bytes folded at one place of the stream are read alike;
* `InStep`                 generations keep what looks alike;
* `Rule.inStep`            a rule is applied in step with the rule of a node of the same bytes;
* `RootsRan.inStep`        two compilations of one stream end with contexts that look alike.
-/

namespace Terrain.Compile

open Kernel Hash List

variable {ss ss' : List Symbol} {s : Symbol} {i : ScopeId} {r : Root}

/-! ## two compilations of one stream -/

abbrev Solid (g : Graph) : Context → ScopeId → NodeId → Symbol → Prop :=
  OfShape g fun c i shape s => (c.scope i).shapeOf s = some shape.solid

/-- what a compilation keeps on its way -/
abbrev Sound (g : Graph) (done : List NodeId) : Context → Prop :=
  Held done (fun _ => True) (Solid g)

/-- two compilations that end with one stream, short enough for the lengths of its texts -/
structure OneStream (F G : Context) : Prop where
  stream : F.stream = G.stream
  small : F.stream.size < 2 ^ 32

/-- generations of one stream go in step: what looked alike looks alike afterwards -/
def InStep (ρ : SlotMap) (T : Context → Context → Prop) (F G : Context) (g h : Graph)
    (done done' : List NodeId) (fuel fuel' : Nat) : Prop :=
  ∀ {a b c d s s' c' d'}, Ran (emitWithin g fuel a) c s c' → Ran (emitWithin h fuel' b) d s' d' →
    Sound g done c → Sound h done' d → Below done c a → Below done' d b → Alike ρ T c d →
    Grows c' F → Grows d' G → Alike ρ T c' d' ∧ s.relabel ρ = s'.relabel ρ

section
variable {ρ : SlotMap} {T : Context → Context → Prop} {P : NodeId → NodeId → Prop}
  {F G c d c' d' : Context} {g h : Graph} {done done' : List NodeId} {fuel fuel' : Nat} {n m : Node}

section
variable (e : OneStream F G) (same : c.stream = d.stream)
include e same

theorem OneStream.tokens {x y : List UInt8}
    (left : (c.stream.fold x).bytes.toList <+: F.stream.bytes.toList)
    (right : (d.stream.fold y).bytes.toList <+: G.stream.bytes.toList) :
    ∃ u v, x ++ u = y ++ v ∧ (x ++ u).length < 2 ^ 32 := by
  obtain ⟨u, hu⟩ := left
  obtain ⟨v, hv⟩ := right
  rw [Stream.toList_fold, append_assoc] at hu hv
  have whole := hu.trans ((congrArg (fun s : Stream => s.bytes.toList) e.stream).trans hv.symm)
  rw [same] at whole
  refine ⟨u, v, append_cancel_left whole, ?_⟩
  have length := congrArg List.length hu
  have small : F.stream.bytes.toList.length < 2 ^ 32 := e.small
  rw [length_append] at length
  omega

theorem OneStream.texts {tag : UInt8} {x y : String} (xs ys : List UInt8)
    (left : (c.stream.fold ([tag] ++ Token.str x ++ xs)).bytes.toList <+: F.stream.bytes.toList)
    (right : (d.stream.fold ([tag] ++ Token.str y ++ ys)).bytes.toList <+: G.stream.bytes.toList) :
    x = y ∧ ∃ u v, xs ++ u = ys ++ v := by
  obtain ⟨u, v, tokens, small⟩ := e.tokens same left right
  have small' : ([tag] ++ Token.str y ++ ys ++ v).length < 2 ^ 32 := tokens ▸ small
  simp only [length_append, Token.length_str] at small small'
  simp only [append_assoc, cons_append, nil_append, List.cons.injEq,
    true_and] at tokens
  have read := congrArg Token.readStr tokens
  rw [Token.readStr_str (by omega), Token.readStr_str (by omega)] at read
  simp only [Option.some.injEq, Prod.mk.injEq] at read
  exact ⟨read.1, u, v, read.2⟩

theorem OneStream.text_eq {tag : UInt8} {x y : String}
    (left : (c.stream.fold ([tag] ++ Token.str x)).bytes.toList <+: F.stream.bytes.toList)
    (right : (d.stream.fold ([tag] ++ Token.str y)).bytes.toList <+: G.stream.bytes.toList) :
    x = y :=
  (e.texts same [] [] (by rwa [append_nil]) (by rwa [append_nil])).1

theorem OneStream.tag_eq {tag tag' : UInt8} {xs ys : List UInt8}
    (left : (c.stream.fold (tag :: xs)).bytes.toList <+: F.stream.bytes.toList)
    (right : (d.stream.fold (tag' :: ys)).bytes.toList <+: G.stream.bytes.toList) : tag = tag' := by
  obtain ⟨u, v, tokens, -⟩ := e.tokens same left right
  exact (List.cons.inj tokens).1

end

theorem preserved_solid (built : g.Built) : Preserved g done (fun _ => True) (Solid g) where
  idle _ _ := trivial
  later reaches _ _ inside _ := fun ⟨n, found, shape⟩ =>
    ⟨n, found, shapeOf_extends (reaches.grows.scope _ inside) shape⟩
  start _ _ := ofShape_position built.wellFormed built.size_pos rfl
  constant {c c' n v slot} _ accepted op _ _ := by
    have own : n.shape = v.shape := accepted.shape fun _ => by rw [op]; rfl
    exact ⟨trivial, n, accepted.found, own ▸ rfl⟩
  inject {c c' n name shape fallback v slot} _ accepted op _ _ _ _ := by
    have own : n.shape = shape := accepted.shape fun _ => by rw [op]; rfl
    exact ⟨trivial, n, accepted.found, own ▸ rfl⟩
  ref _ accepted op inputs solid := solid.ref built.wellFormed accepted op inputs
  same _ accepted op inputs solid := solid.same built.wellFormed accepted op inputs
  term held accepted _ _ _ _ _ made _ :=
    ⟨trivial, _, accepted.found, made ▸ shapeOf_declared held.kept _ _⟩
  distance held accepted _ _ _ _ made made' _ := by
    subst made made'
    exact ⟨trivial, _, accepted.found,
      shapeOf_declared ((Change.declared _ _ _).kept held.kept) _ _⟩
  nested {c d c' n r spec t ws ss callee} held accepted parts _ typed _ _ function made _ := by
    have current : d.current = c.current := by cases function <;> rfl
    refine ⟨trivial, n, accepted.found, ?_⟩
    rw [made, shape_of_nested parts typed, ← current]
    exact shapeOf_called (function.reaches.kept held.kept) _ _ _
  again _ _ _ _ _ := trivial
  opened _ _ _ _ _ _ _ := trivial
  closed _ _ _ _ _ _ _ _ _ _ _ _ := trivial
  sampled held accepted _ _ _ _ _ _ made _ :=
    ⟨trivial, _, accepted.found, made ▸ shapeOf_declared held.kept _ _⟩

theorem Sound.emit (k : Sound g done c) (built : g.Built) (sorted : Sorted g done) {id : NodeId}
    {s : Symbol} (ran : Ran (emitWithin g fuel id) c s c') (below : Below done c id) :
    Sound g done c' :=
  (emit_held built.wellFormed sorted (preserved_solid built) fuel _ _ _ _ ran k below).1

theorem Visits.grows {ws : List (Option Wire)}
    (h : Visits (emitWithin g fuel) ws c ss c') : Grows c c' :=
  h.reaches.grows

section
variable (built : g.Built) (built' : h.Built) (sorted : Sorted g done) (sorted' : Sorted h done')
  (step : InStep ρ T F G g h done done' fuel fuel')
include built built' sorted sorted' step

theorem Visits.inStep {ws vs : List (Option Wire)} (left : Visits (emitWithin g fuel) ws c ss c')
    (right : Visits (emitWithin h fuel') vs d ss' d') (length : ws.length = vs.length)
    (k : Sound g done c) (k' : Sound h done' d) (below : ∀ w, some w ∈ ws → Below done c w.source)
    (below' : ∀ w, some w ∈ vs → Below done' d w.source) (a : Alike ρ T c d) (grows : Grows c' F)
    (grows' : Grows d' G) :
    Alike ρ T c' d' ∧ ss.map (Symbol.relabel ρ) = ss'.map (Symbol.relabel ρ) := by
  induction left generalizing vs d ss' with
  | nil c =>
    cases right with
    | nil => exact ⟨a, rfl⟩
    | cons => cases length
  | cons head tail ih =>
    cases right with
    | nil => cases length
    | cons head' tail' =>
      have first := below _ (.head _)
      have first' := below' _ (.head _)
      obtain ⟨a', same⟩ := step head head' k k' first first' a (tail.grows.trans grows)
        (tail'.grows.trans grows')
      obtain ⟨a'', rest⟩ := ih tail' (Nat.succ.inj length) (k.emit built sorted head first)
        (k'.emit built' sorted' head' first')
        (fun w there => (below w (.tail _ there)).of_reaches k.kept (emit_reaches head)
          (emit_current head))
        (fun w there => (below' w (.tail _ there)).of_reaches k'.kept
          (emit_reaches head') (emit_current head')) a' grows
      exact ⟨a'', by rw [map_cons, map_cons, same, rest]⟩

omit built built' sorted sorted' step in
theorem solids_eq (t : Tables ρ T P) (a : Alike ρ T c d) (i : ScopeId) {ws vs : List Wire}
    (left : Forall₂ (fun (w : Wire) s => (c.scope i).shapeOf s = some w.shape.solid) ws ss)
    (right : Forall₂ (fun (w : Wire) s => (d.scope i).shapeOf s = some w.shape.solid) vs ss')
    (same : ss.map (Symbol.relabel ρ) = ss'.map (Symbol.relabel ρ)) :
    ws.map (fun w => w.shape.solid) = vs.map fun w => w.shape.solid := by
  induction left generalizing vs ss' with
  | nil =>
    cases right with
    | nil => rfl
    | cons => cases same
  | cons head _ ih =>
    cases right with
    | nil => cases same
    | cons head' tail' =>
      obtain ⟨first, rest⟩ := List.cons.inj same
      rw [a.shapeOf t i first, head'] at head
      rw [map_cons, map_cons, ih tail' rest, Option.some.inj head]

/-! ## rules in step -/

omit built built' sorted sorted' step in
theorem Rule.readable (wf : g.WellFormed) {visit : Visit} (stands : Stands g done n)
    (complete : n.structureComplete = true) (small : n.structureBytes.length < 2 ^ 32)
    (h : Rule visit n c s c') : n.Readable := by
  have accepted := h.accepted wf stands
  refine ⟨?_, complete, wf.takes stands.found, accepted.typed, fun _ _ => accepted.octaves,
    fun _ => accepted.reduction, small⟩
  intro literal reason op
  cases h with
  | term plain => simp [Node.isPlain, op] at plain
  | nested parts => simp [nestedParts, op] at parts
  | position op' | constant op' | inject op' | ref op' | same op' | distance op' | cache op' =>
    rw [op] at op'
    cases op'

/-- inputs of nodes of one operation: afterwards the nodes are of one bare form -/
theorem Visits.bare_eq (t : Tables ρ T P) (found : g.get? n.id = some n)
    (found' : h.get? m.id = some m)
    (readable : n.Readable) (readable' : m.Readable) (op : n.op.strip = m.op.strip)
    (top : n.topByte = m.topByte) (other : n.op.form ≠ .ref)
    (left : Visits (emitWithin g fuel) n.inputs c ss c')
    (right : Visits (emitWithin h fuel') m.inputs d ss' d') (k : Sound g done c)
    (k' : Sound h done' d)
    (below : Below done c n.id) (below' : Below done' d m.id) (a : Alike ρ T c d)
    (grows : Grows c' F)
    (grows' : Grows d' G) :
    Alike ρ T c' d' ∧ ss.map (Symbol.relabel ρ) = ss'.map (Symbol.relabel ρ) ∧ n.bare = m.bare := by
  have wf := built.wellFormed
  have wf' := built'.wellFormed
  have takes : n.op.Takes n.inputs.length :=
    readable.takes.resolve_right fun ⟨name, s, w, h, _⟩ => other (by rw [h]; rfl)
  have takes' : m.op.Takes m.inputs.length :=
    readable'.takes.resolve_right fun ⟨name, s, w, h, _⟩ => other (by
      rw [← Op.form_strip, op, Op.form_strip, h]
      rfl)
  have length := arity_eq op top takes takes'
  have lower (w : Wire) (input : some w ∈ n.inputs) := below.input wf sorted found input
  have lower' (w : Wire) (input : some w ∈ m.inputs) := below'.input wf' sorted' found' input
  obtain ⟨a', same⟩ := left.inStep built built' sorted sorted' step right length k k' lower lower' a
    grows grows'
  obtain ⟨-, ws, all, shapes⟩ :=
    left.held wf sorted (preserved_solid built)
      (emit_held wf sorted (preserved_solid built) fuel) k lower
  obtain ⟨-, vs, all', shapes'⟩ := right.held wf' sorted' (preserved_solid built')
    (emit_held wf' sorted' (preserved_solid built') fuel') k' lower'
  rw [← a.current] at shapes'
  exact ⟨a', same, Terrain.bare_eq op all all' readable.typed readable'.typed takes takes'
    (solids_eq t a' _ (OfShape.inputs wf found all shapes)
      (OfShape.inputs wf' found' all' shapes') same)⟩

end

theorem shapes_bare (n : Node) :
    (n.bare.inputs.filterMap id).map Wire.shape = (n.inputs.filterMap id).map Wire.shape := by
  unfold Node.bare
  dsimp only
  induction n.inputs with
  | nil => rfl
  | cons o os ih =>
    cases o with
    | none => exact ih
    | some w => exact congrArg (List.cons w.shape) ih

variable [Framed T]

theorem FunctionOf.inStep {spec : Nested} {ws vs : List Wire} {x : Template}
    {callee callee' : ScopeId} (left : FunctionOf spec ws x c callee c')
    (right : FunctionOf spec vs x d callee' d') (shapes : ws.map Wire.shape = vs.map Wire.shape)
    (a : Alike ρ T c d) : Alike ρ T c' d' ∧ callee = callee' := by
  cases left with
  | again known =>
    rw [a.nested] at known
    cases right with
    | first unknown => exact absurd (known.symm.trans unknown) (by simp)
    | again known' =>
      cases known.symm.trans known'
      rw [a.scopeName, a.depth]
      exact ⟨(a.fold _).deepened _ _, rfl⟩
  | first unknown =>
    rw [a.nested] at unknown
    cases right with
    | again known => exact absurd (known.symm.trans unknown) (by simp)
    | first unknown' =>
      rw [a.current, a.scopes]
      exact ⟨(a.fold _).nestedAdded _ _ _ (forget_wires shapes), rfl⟩

theorem readAgain_stream (c : Context) (reader id : DispatchId) :
    (c.readAgain reader id).stream =
      c.stream.fold ([Tag.backRef] ++ Token.str (c.entry id).name) := by
  unfold Context.readAgain
  rw [raiseDepth_frame]
  rfl

theorem prefix_cacheOpened (reader : DispatchId) (reduction : Int)
    (grows : Grows (c.cacheOpened n reader reduction) F) :
    (c.stream.fold ([Tag.dispatch] ++ Token.str c.cacheName ++ [Dims.two.count])).bytes.toList <+:
      F.stream.bytes.toList := by
  refine List.IsPrefix.trans ?_ grows.stream
  show _ <+: (Stream.fold _ _).bytes.toList
  rw [Stream.toList_fold _ (Token.u16 _)]
  exact prefix_append _ _

/-- a cache was met before in both compilations or in none, and then its dispatch is the same -/
theorem CacheOf.inStep (built : g.Built) (built' : h.Built) (e : OneStream F G)
    (step : InStep ρ T F G g h done done' fuel fuel') (shape : n.shape = m.shape)
    {value value' : NodeId} {reduction : Int} {i j : DispatchId}
    (left : CacheOf (emitWithin g fuel) n value reduction c i c')
    (right : CacheOf (emitWithin h fuel') m value' reduction d j d')
    (k : Sound g done c) (k' : Sound h done' d) (below : Below done c n.id)
    (below' : Below done' d m.id)
    (inner : ∀ reader, Below done (c.cacheOpened n reader reduction) value)
    (inner' : ∀ reader, Below done' (d.cacheOpened m reader reduction) value') (a : Alike ρ T c d)
    (grows : Grows c' F) (grows' : Grows d' G) : Alike ρ T c' d' ∧ i = j := by
  cases left with
  | @again reader _ reads known =>
    have token := grows.stream
    rw [readAgain_stream] at token
    rw [a.dispatch] at reads
    cases right with
    | @again reader' _ reads' known' =>
      cases reads.symm.trans reads'
      have token' := grows'.stream
      rw [readAgain_stream] at token'
      have names := e.text_eq a.stream token token'
      rw [a.entry] at names
      have inside := (k.kept.cache known).2
      rw [a.entries] at inside
      cases k'.kept.distinct i inside j (k'.kept.cache known').2 names
      exact ⟨a.readAgain reader i, rfl⟩
    | @first d₁ reader' s' reads' unknown body =>
      have grows'' := ((emit_reaches body).grows.trans
        (Change.cacheClosed _ _ _ _ _).grows).trans grows'
      exact absurd (e.tag_eq a.stream token (prefix_cacheOpened reader' reduction grows''))
        (by decide)
  | @first c₁ reader s reads unknown body =>
    have closed := (Change.cacheClosed c₁ c.entries.size c.cacheName n.shape s).grows.trans grows
    have opened := (emit_reaches body).grows.trans closed
    cases right with
    | again reads' known' =>
      have token' := grows'.stream
      rw [readAgain_stream] at token'
      exact absurd (e.tag_eq a.stream (prefix_cacheOpened reader reduction opened) token')
        (by decide)
    | @first d₁ reader' s' reads' unknown' body' =>
      have same : reader = reader' := by
        rw [a.dispatch, reads'] at reads
        exact (Option.some.inj reads).symm
      subst same
      have closed' := (Change.cacheClosed d₁ d.entries.size d.cacheName m.shape
        s').grows.trans grows'
      have opens : Sound g done (c.cacheOpened n reader reduction) :=
        k.cacheOpened (preserved_solid built) below reads unknown trivial
      have opens' : Sound h done' (d.cacheOpened m reader reduction) :=
        k'.cacheOpened (preserved_solid built') below' reads' unknown' trivial
      obtain ⟨inside, symbols⟩ :=
        step body body' opens opens' (inner reader) (inner' reader)
          (a.cacheOpened rfl rfl (by rfl) shape reader reduction)
        closed closed'
      rw [a.entries, a.cacheName, shape]
      exact ⟨inside.cacheClosed _ _ _ symbols, rfl⟩

theorem Rule.inStep (built : g.Built) (built' : h.Built) (sorted : Sorted g done)
    (sorted' : Sorted h done') (step : InStep ρ T F G g h done done' fuel fuel') (e : OneStream F G)
    (t : Tables ρ T P) (found : g.get? n.id = some n) (found' : h.get? m.id = some m)
    (readable : n.Readable) (readable' : m.Readable) (op : n.op.strip = m.op.strip)
    (top : n.topByte = m.topByte) (paired : n.op.form = .constant → P n.id m.id)
    {s' : Symbol} (left : Rule (emitWithin g fuel) n c s c')
    (right : Rule (emitWithin h fuel') m d s' d') (k : Sound g done c) (k' : Sound h done' d)
    (below : Below done c n.id) (below' : Below done' d m.id) (a : Alike ρ T c d)
    (grows : Grows c' F)
    (grows' : Grows d' G) : Alike ρ T c' d' ∧ s.relabel ρ = s'.relabel ρ := by
  have wf := built.wellFormed
  have wf' := built'.wellFormed
  have lower (w : Wire) (input : some w ∈ n.inputs) := below.input wf sorted found input
  have lower' (w : Wire) (input : some w ∈ m.inputs) := below'.input wf' sorted' found' input
  have hn := left.ofForm
  have hm := right.ofForm
  rw [← Op.form_strip, ← op, Op.form_strip] at hm
  cases form : n.op.form with
  | position =>
    rw [form] at hn hm
    obtain ⟨rfl, rfl⟩ := hn
    obtain ⟨rfl, rfl⟩ := hm
    exact ⟨a, rfl⟩
  | constant =>
    rw [form] at hn hm
    obtain ⟨v, slot, constant, taken, rfl⟩ := hn
    obtain ⟨v', slot', constant', taken', rfl⟩ := hm
    rw [constant, constant'] at op
    have shape : v.shape = v'.shape := by simpa [Op.strip] using op
    obtain ⟨tables, slots⟩ := t.constant a.tables (paired form) shape taken taken'
    refine ⟨⟨?_, tables⟩, by simp only [Symbol.relabel, slots]⟩
    cases taken <;> cases taken' <;> exact a.view
  | inject =>
    rw [form] at hn hm
    obtain ⟨name, shape, fallback, v, slot, inject, rfl, taken, rfl⟩ := hn
    obtain ⟨name', shape', fallback', v', slot', inject', rfl, taken', rfl⟩ := hm
    rw [inject, inject'] at op
    obtain ⟨rfl, shape⟩ : name = name' ∧ v.shape = v'.shape := by simpa [Op.strip] using op
    obtain ⟨tables, slots⟩ := t.inject a.tables shape taken taken'
    refine ⟨⟨?_, tables⟩, by simp only [Symbol.relabel, slots]⟩
    cases taken <;> cases taken' <;> exact a.view
  | ref =>
    rw [form] at hn hm
    obtain ⟨w, rest, inputs, target⟩ := hn
    obtain ⟨w', rest', inputs', target'⟩ := hm
    exact step target target' k k' (lower w (inputs ▸ .head _))
      (lower' w' (inputs' ▸ .head _)) a grows grows'
  | operands =>
    rw [form] at hn hm
    obtain ⟨ss, c₁, inputs, code⟩ := hn
    obtain ⟨ss', d₁, inputs', code'⟩ := hm
    obtain ⟨rfl, rfl⟩ := Prod.mk.inj code
    obtain ⟨rfl, rfl⟩ := Prod.mk.inj code'
    obtain ⟨a', same, bare⟩ :=
      inputs.bare_eq built built' sorted sorted' step t found found' readable
      readable' op top (by simp [form]) inputs' k k' below below' a
        ((computed_reaches n ss c₁).grows.trans grows)
      ((computed_reaches m ss' d₁).grows.trans grows')
    exact a'.computed bare same
  | function =>
    rw [form] at hn hm
    obtain ⟨r, spec, x, ss, c₁, ss₁, c₂, callee, c₃, parts, inputs, again, function, rfl, rfl⟩ := hn
    obtain ⟨r', spec', x', ss', d₁, ss₁', d₂, callee', d₃, parts', inputs', again', function', rfl,
      rfl⟩ := hm
    have last := (function.reaches.grows.trans (Change.called _ _ _ _).grows).trans grows
    have last' := (function'.reaches.grows.trans (Change.called _ _ _ _).grows).trans grows'
    have first := ((Change.required c₁ r).grows.trans again.grows).trans last
    have first' := ((Change.required d₁ r').grows.trans again'.grows).trans last'
    obtain ⟨a₁, -, bare⟩ := inputs.bare_eq built built' sorted sorted' step t found found' readable
      readable' op top (by simp [form]) inputs' k k' below below' a first first'
    rw [← nestedParts_bare, bare, nestedParts_bare, parts'] at parts
    cases parts
    have p : Preserved g done (fun _ => True) (Solid g) := preserved_solid built
    have p' : Preserved h done' (fun _ => True) (Solid h) := preserved_solid built'
    obtain ⟨k₁, -⟩ := inputs.held wf sorted p (emit_held wf sorted p fuel) k lower
    obtain ⟨k₁', -⟩ := inputs'.held wf' sorted' p' (emit_held wf' sorted' p' fuel') k' lower'
    obtain ⟨a₂, same, -⟩ := again.bare_eq built built' sorted sorted' step t found found' readable
      readable' op top (by simp [form]) again' (k₁.requiredAll p [r]) (k₁'.requiredAll p' [r])
      (below.of_reaches k.kept (inputs.reaches.tail (.required _ r)) inputs.current)
      (below'.of_reaches k'.kept (inputs'.reaches.tail (.required _ r)) inputs'.current)
      (a₁.required r) last last'
    have shapes := congrArg (fun n : Node => (n.inputs.filterMap id).map Wire.shape) bare
    rw [shapes_bare, shapes_bare] at shapes
    obtain ⟨a₃, rfl⟩ := function.inStep function' shapes a₂
    rw [a₃.names, a₃.scopeName]
    exact ⟨a₃.called _ _ same, rfl⟩
  | cache =>
    rw [form] at hn hm
    obtain ⟨reduction, w, i, c₁, output, more, cache, inputs, dispatch, made, rfl, rfl⟩ := hn
    obtain ⟨reduction', w', j, d₁, output', more', cache', inputs', dispatch', made', rfl, rfl⟩ :=
      hm
    have shape : n.shape = m.shape := by
      simp only [Node.topByte, cache, cache'] at top
      rw [← Shape.ofCode_code n.shape, top, Shape.ofCode_code]
    rw [cache, cache'] at op
    cases op
    have last := ((Change.required c₁ .cacheIndex).grows.trans
      (Change.declared _ _ _).grows).trans grows
    have last' := ((Change.required d₁ .cacheIndex).grows.trans
      (Change.declared _ _ _).grows).trans grows'
    obtain ⟨a₁, rfl⟩ := dispatch.inStep built built' e step shape dispatch' k k' below below'
      (fun reader => below.cacheOpened wf sorted found (inputs ▸ .head _) reader reduction)
      (fun reader => below'.cacheOpened wf' sorted' found' (inputs' ▸ .head _) reader reduction)
      a last last'
    rw [a₁.entry, made'] at made
    cases made
    rw [a₁.nextBound, shape]
    exact ⟨(a₁.required .cacheIndex).declared m.shape rfl, rfl⟩

/-! ## generations in step -/

/-- the nodes that a function has at hand, in the order they were generated -/
def Scope.nodes (s : Scope) : List NodeId := (s.symbols.map Prod.fst).reverse

/-- the constants that two compilations generate at the same places of their functions -/
def constantPairs (g h : Graph) (c d : Context) : List (NodeId × NodeId) :=
  (List.range c.scopes.size).flatMap fun i =>
    if (c.scope i).hasPosition then
      ((c.scope i).nodes.zip (d.scope i).nodes).filter fun p =>
        g.isConstant p.1 && h.isConstant p.2
    else []

theorem mem_constantPairs {i k : Nat} {a b : NodeId} (inside : i < c.scopes.size)
    (position : (c.scope i).hasPosition = true) (left : (c.scope i).nodes[k]? = some a)
    (right : (d.scope i).nodes[k]? = some b) (constant : g.isConstant a = true)
    (constant' : h.isConstant b = true) : (a, b) ∈ constantPairs g h c d := by
  have pair : (a, b) ∈ (c.scope i).nodes.zip (d.scope i).nodes :=
    mem_of_getElem? (getElem?_zip_eq_some.2 ⟨left, right⟩)
  refine mem_flatMap.2 ⟨i, mem_range.2 inside, ?_⟩
  rw [if_pos position]
  exact mem_filter.2 ⟨pair, by rw [constant, constant']; rfl⟩

theorem nodes_remembered {x : NodeId} (inside : i < c.scopes.size)
    (grows : Grows (c.remembered i x s) F) :
    (F.scope i).nodes[(c.scope i).symbols.length]? = some x := by
  have scope := scope_modifyScope c i i (fun f => { f with symbols := (x, s) :: f.symbols }) inside
  rw [if_pos rfl] at scope
  have symbols := (grows.scope i (by rwa [Context.remembered, size_modifyScope])).symbols
  unfold Context.remembered at symbols
  rw [scope] at symbols
  obtain ⟨more, same⟩ := symbols
  unfold Scope.nodes
  rw [← same, map_append, map_cons, reverse_append, reverse_cons,
    append_assoc, getElem?_append_right (by simp)]
  simp

theorem Rule.starts (rule : Rule (emitWithin g fuel) n (c.fold n.structureBytes) s c')
    (grows : Grows (c'.remembered i n.id s) F) : Grows (c.fold n.structureBytes) F :=
  (rule.reaches.grows.trans
    (Change.remembered c' i n.id s).grows).trans grows

theorem Rule.constant_symbols {visit : Visit} {token : List UInt8}
    (rule : Rule visit n (c.fold token) s c') (constant : n.op.form = .constant)
    (inside : i < c.scopes.size) :
    i < c'.scopes.size ∧ (c'.scope i).symbols = (c.scope i).symbols := by
  have taken := rule.ofForm
  rw [constant] at taken
  obtain ⟨v, slot, -, taken, -⟩ := taken
  exact ⟨inside.trans_le taken.quiet.grows.scopes, taken.quiet.symbols i inside⟩

theorem readNode_backRef (x : List UInt8) : readNode (Tag.backRef :: x) = none := by
  unfold readNode
  rfl

theorem backRef_ne (readable : n.Readable) {u v x : List UInt8}
    (same : [Tag.backRef] ++ x ++ u = n.structureBytes ++ v) : False := by
  have read := readNode_bytes readable v
  rw [← same, append_assoc] at read
  exact absurd ((readNode_backRef _).symm.trans read) (by simp)

section
variable (built : g.Built) (built' : h.Built) (sorted : Sorted g done) (sorted' : Sorted h done')
  (e : OneStream F G) (t : Tables ρ T fun a b => (a, b) ∈ constantPairs g h F G)
include built built' sorted sorted' e t

theorem Generates.inStep (step : InStep ρ T F G g h done done' fuel fuel')
    (found : g.get? n.id = some n) (found' : h.get? m.id = some m) {s' : Symbol}
    (left : Generates (emitWithin g fuel) n c s c')
    (right : Generates (emitWithin h fuel') m d s' d') (k : Sound g done c) (k' : Sound h done' d)
    (below : Below done c n.id) (below' : Below done' d m.id) (a : Alike ρ T c d)
    (grows : Grows c' F) (grows' : Grows d' G) :
    Alike ρ T c' d' ∧ s.relabel ρ = s'.relabel ρ := by
  have stands : Stands g done n := ⟨found, below.1⟩
  have stands' : Stands h done' m := ⟨found', below'.1⟩
  have inside := k.kept.current
  have inside' := k'.kept.current
  cases left with
  | again known =>
    cases right with
    | again known' =>
      obtain ⟨_, -, shape⟩ := k.symbols _ inside.1 inside.2 _ (mem_of_lookup known)
      obtain ⟨_, -, shape'⟩ := k'.symbols _ inside'.1 inside'.2 _ (mem_of_lookup known')
      have value := isValue_of_shapeOf k.kept inside.1 inside.2 shape
      have value' := isValue_of_shapeOf k'.kept inside'.1 inside'.2 shape'
      have texts := e.text_eq a.stream grows.stream grows'.stream
      rw [texts]
      exact ⟨a.fold _, relabel_coarse t (text_inj value value' texts)⟩
    | first unknown complete rule =>
      obtain ⟨u, v, tokens, small⟩ := e.tokens a.stream grows.stream (rule.starts grows').stream
      rw [tokens, length_append] at small
      exact (backRef_ne (rule.readable built'.wellFormed stands' complete (by omega)) tokens).elim
  | @first c₁ _ unknown complete rule =>
    cases right with
    | again known' =>
      obtain ⟨u, v, tokens, small⟩ := e.tokens a.stream (rule.starts grows).stream grows'.stream
      rw [length_append] at small
      exact (backRef_ne (rule.readable built.wellFormed stands complete (by omega))
        tokens.symm).elim
    | @first d₁ _ unknown' complete' rule' =>
      obtain ⟨u, v, tokens, small⟩ :=
        e.tokens a.stream (rule.starts grows).stream (rule'.starts grows').stream
      have small' : (m.structureBytes ++ v).length < 2 ^ 32 := tokens ▸ small
      rw [length_append] at small small'
      have readable := rule.readable built.wellFormed stands complete (by omega)
      have readable' := rule'.readable built'.wellFormed stands' complete' (by omega)
      -- the bytes tell the operation and where they end
      have read := readNode_bytes readable u
      rw [tokens, readNode_bytes readable' v] at read
      obtain ⟨op, top, rest⟩ : m.op.strip = n.op.strip ∧ m.topByte = n.topByte ∧ v = u := by
        simpa using read
      have bytes : n.structureBytes = m.structureBytes := by
        rw [rest] at tokens
        exact append_cancel_right tokens
      have paired (constant : n.op.form = .constant) :
          (n.id, m.id) ∈ constantPairs g h F G := by
        have constant' : m.op.form = .constant := by
          rw [← Op.form_strip, op, Op.form_strip, constant]
        have place := rule.constant_symbols constant inside.1
        have place' := rule'.constant_symbols constant' inside'.1
        have length : (c.scope c.current).symbols.length = (d.scope c.current).symbols.length := by
          simpa [Scope.view] using congrArg (fun s : Scope => s.symbols.length) (a.scope c.current)
        have starts := rule.starts grows
        refine mem_constantPairs (inside.1.trans_le starts.scopes) ?_
          (nodes_remembered place.1 grows) ?_ ?_ ?_
        · rw [(starts.scope c.current inside.1).placed]
          exact inside.2
        · rw [place.2, length, a.current, ← place'.2]
          exact nodes_remembered place'.1 grows'
        · simp [Graph.isConstant, found, constant]
        · simp [Graph.isConstant, found', constant']
      obtain ⟨a', same⟩ := rule.inStep built built' sorted sorted' step e t found found' readable
        readable' op.symm top.symm paired rule' (k.fold (preserved_solid built) _)
        (k'.fold (preserved_solid built') _) (below.of_reaches k.kept (.single (.fold c _)) rfl)
        (below'.of_reaches k'.kept (.single (.fold d _)) rfl) (bytes ▸ a.fold _)
        ((Change.remembered _ _ _ _).grows.trans grows)
          ((Change.remembered _ _ _ _).grows.trans grows')
      rw [a.current]
      exact ⟨a'.remembered _ (by rfl) same, same⟩

theorem emit_inStep (fuel fuel' : Nat) : InStep ρ T F G g h done done' fuel fuel' := by
  induction fuel generalizing fuel' with
  | zero =>
    intro a b c d s s' c' d' left
    exact absurd left not_ran_throw
  | succ fuel ih =>
    intro a b c d s s' c' d' left right k k' below below' alike grows grows'
    cases fuel' with
    | zero => exact absurd right not_ran_throw
    | succ fuel' =>
      obtain ⟨n, found, generated⟩ := emitWithin_ran left
      obtain ⟨m, found', generated'⟩ := emitWithin_ran right
      obtain rfl := built.wellFormed.id_eq found
      obtain rfl := built'.wellFormed.id_eq found'
      exact generated.inStep built built' sorted sorted' e t (ih fuel') found found' generated' k k'
        below below' alike grows grows'

end

theorem RootsRan.starts {rest : List Root} (ran : Ran (emit g n.id) (c.fold (rootBytes r n)) s c')
    (tail : RootsRan g rest (c'.rooted r n.shape s) F) : Grows (c.fold (rootBytes r n)) F :=
  ((emit_reaches ran).grows.trans (Change.rooted c' r n.shape s).grows).trans
    tail.reaches.grows

theorem OneStream.no_root (e : OneStream F G) (same : F.stream = d.stream)
    (starts : Grows (d.fold (rootBytes r n)) G) : False := by
  have longer := starts.stream.length_le
  rw [← e.stream, same] at longer
  have fold : (d.fold (rootBytes r n)).stream.bytes.toList = d.stream.bytes.toList ++
      rootBytes r n := Stream.toList_fold _ _
  rw [fold, length_append] at longer
  have : 0 < (rootBytes r n).length := by simp [rootBytes]
  omega

theorem Sound.root {shape : Shape} {token : List UInt8} {id : NodeId} (k : Sound g done c)
    (built : g.Built) (sorted : Sorted g done) (ran : Ran (Compile.emit g id) (c.fold token) s d)
    (root : AtRoot c) (member : id ∈ done) (free : ∀ k : Nat, r.target ≠ "cache_" ++ toString k) :
    Sound g done (c.fold token) ∧ Below done (c.fold token) id ∧ Sound g done (d.rooted r shape s) ∧
      AtRoot (d.rooted r shape s) := by
  have announced : Sound g done (c.fold token) := k.fold (preserved_solid built) token
  have at_ := root.later k.kept (.single (.fold c token)) rfl
  have below := at_.below announced.kept member
  have made := announced.emit built sorted ran below
  have current := emit_current ran
  exact ⟨announced, below,
    made.rooted (preserved_solid built) (made.linked.rooted made.kept shape s free)
    trivial, at_.later announced.kept ((emit_reaches ran).tail (.rooted d r shape s)) current⟩

theorem OneStream.symm (e : OneStream F G) : OneStream G F := ⟨e.stream.symm, e.stream ▸ e.small⟩

theorem RootsRan.inStep (built : g.Built) (built' : h.Built) (sorted : Sorted g done)
    (sorted' : Sorted h done') (e : OneStream F G)
    (t : Tables ρ T fun a b => (a, b) ∈ constantPairs g h F G) {roots roots' : List Root}
    (there : ∀ r ∈ roots, ∀ n, r.node.bind g.get? = some n → n.id ∈ done)
    (there' : ∀ r ∈ roots', ∀ n, r.node.bind h.get? = some n → n.id ∈ done')
    (free : ∀ r ∈ roots, ∀ k : Nat, r.target ≠ "cache_" ++ toString k)
    (free' : ∀ r ∈ roots', ∀ k : Nat, r.target ≠ "cache_" ++ toString k)
    (left : RootsRan g roots c F) (right : RootsRan h roots' d G) (k : Sound g done c)
    (k' : Sound h done' d) (root : AtRoot c) (root' : AtRoot d) (a : Alike ρ T c d) :
    Alike ρ T F G := by
  induction left generalizing roots' d with
  | nil c =>
    cases right with
    | nil => exact a
    | cons found' ran' tail' => exact (e.no_root a.stream (RootsRan.starts ran' tail')).elim
  | @cons r rest n s c c₁ F found ran tail ih =>
    cases right with
    | nil => exact (e.symm.no_root a.stream.symm (RootsRan.starts ran tail)).elim
    | @cons r' rest' m s' _ d₁ _ found' ran' tail' =>
      have starts := RootsRan.starts ran tail
      have starts' := RootsRan.starts ran' tail'
      obtain ⟨target, u, v, codes⟩ := e.texts a.stream [n.shape.code] [m.shape.code] starts.stream
        starts'.stream
      have shape : n.shape = m.shape := by
        rw [← Shape.ofCode_code n.shape, (List.cons.inj codes).1, Shape.ofCode_code]
      have bytes : rootBytes r n = rootBytes r' m := by
        unfold rootBytes
        rw [target, shape]
      have rooted := (Change.rooted c₁ r n.shape s).grows.trans tail.reaches.grows
      have rooted' := (Change.rooted d₁ r' m.shape s').grows.trans tail'.reaches.grows
      obtain ⟨k₁, below, rest, after⟩ := k.root built sorted ran root (there r (.head _) n found)
        (free r (.head _))
      obtain ⟨k₁', below', rest', after'⟩ := k'.root built' sorted' ran' root'
        (there' r' (.head _) m found') (free' r' (.head _))
      obtain ⟨a', same⟩ := emit_inStep built built' sorted sorted' e t _ _ ran ran' k₁ k₁' below
        below' (bytes ▸ a.fold _) rooted rooted'
      refine ih e t (fun r member => there r (.tail _ member))
        (fun r member => there' r (.tail _ member))
        (fun r member => free r (.tail _ member))
        (fun r member => free' r (.tail _ member)) tail' rest rest' after after' ?_
      rw [← shape]
      exact a'.rooted target n.shape same

end

end Terrain.Compile
