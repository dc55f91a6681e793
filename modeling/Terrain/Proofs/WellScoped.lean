import Terrain.Proofs.Inlined
import Terrain.Proofs.Scoping

/-!
# Generated functions are well scoped

Generating one node may open other functions in the middle of the operands of a line, and the table
of symbols has entries for all functions.  Still each function uses what is at hand in it: the lines
of a dispatch's function are a walk that starts with the position, and a symbol that is remembered
for a node of a function is readable behind the lines that this function has.

* `Lined`                what holds of the lines of functions, and what keeps it;
* `Walks`                functions are walks while code is generated;
* `preserved_proper`     the rules keep it;
* `compile_wellScoped`   every function of a program is well scoped.
-/

namespace Terrain.Compile

open Kernel Hash List

variable {ls : List Indented} {i : ScopeId} {v : Var}
variable {id : NodeId} {ws : List Wire} {j : ScopeId}

/-- a slot holds a parameter of this shape -/
def SlotAt (c : Context) (k : Nat) (shape : Shape) : Prop :=
  ∃ q, c.parameters[k]? = some q ∧ q.shape = shape

/-- the variables at hand behind the lines of a dispatch's function -/
def Scope.known (s : Scope) : List Var := .position :: introduced s.lines.toList

/-- a symbol can be read in a function -/
def InReach (c : Context) (i : ScopeId) (_ : NodeId) (s : Symbol) : Prop :=
  Readable (SlotAt c) (c.scope i).known s

section
variable {c c' : Context}

theorem SlotAt.later {k : Nat} {shape : Shape} (h : SlotAt c k shape) (grows : Grows c c') :
    SlotAt c' k shape := by
  obtain ⟨q, listed, same⟩ := h
  obtain ⟨more, parameters⟩ := grows.parameters
  exact ⟨q, parameters ▸ getElem?_append_of_some listed, same⟩

theorem known_append {s s' : Scope}
    (lines : s'.lines.toList = s.lines.toList ++ ls) : s'.known = s.known ++ introduced ls := by
  unfold Scope.known
  rw [lines, introduced_append]
  rfl

theorem InReach.later {s : Symbol} (h : InReach c i id s) (grows : Grows c c')
    (inside : i < c.scopes.size) : InReach c' i id s := by
  obtain ⟨more, lines, -⟩ := (grows.scope i inside).lines
  refine Readable.mono h (fun _ _ slot => slot.later grows) ?_
  rw [known_append lines]
  exact subset_append_left _ _

theorem readable_of_mem {ss : List Symbol}
    (reads : Forall₂ (fun (w : Wire) s => InReach c i w.source s) ws ss) :
    ∀ s ∈ ss, Readable (SlotAt c) (c.scope i).known s := by
  induction reads with
  | nil => exact nofun
  | cons head _ ih => exact forall_mem_cons.2 ⟨head, ih⟩

theorem not_known (k : Kept c) (inside : i < c.scopes.size)
    (position : (c.scope i).hasPosition = true) {m : Nat} (above : c.names < m)
    (var : v = .bound m ∨ v = .result m) :
    v ∉ (c.scope i).known := by
  intro there
  rcases mem_cons.1 there with rfl | there
  · rcases var with var | var <;> cases var
  · obtain ⟨l, member, introduces⟩ := mem_filterMap.1 there
    obtain ⟨m', -, below, var'⟩ :=
      k.serials i inside position l member v (Line.sets_of_introduces introduces)
    have same : m = m' := by
      rcases var with rfl | rfl <;> rcases var' with h | h <;> cases h <;> rfl
    omega

/-! ## lines of functions -/

structure Lined (P : Context → ScopeId → List Indented → Prop) (N : Scope → Prop) (c : Context) :
    Prop where
  placed : ∀ i < c.scopes.size, (c.scope i).hasPosition = true → P c i (c.scope i).lines.toList
  nested : ∀ i < c.scopes.size, (c.scope i).hasPosition = false → N (c.scope i)

/-- the functions that were there stay as they are; new ones have no lines yet, or are
nested ones -/
structure Opens (N : Scope → Prop) (c c' : Context) : Prop where
  reaches : Reaches c c'
  old : ∀ i < c.scopes.size, c'.scope i = c.scope i
  new : ∀ i < c'.scopes.size, c.scopes.size ≤ i →
    ((c'.scope i).hasPosition = true → (c'.scope i).lines.toList = []) ∧
      ((c'.scope i).hasPosition = false → N (c'.scope i))

section
variable {P P' : Context → ScopeId → List Indented → Prop} {N : Scope → Prop}

theorem Lined.push (h : Lined P N c) (w : Wrote c c' j ls) (old : ∀ {i ls}, P c i ls → P' c' i ls)
    (fits : j < c.scopes.size → P c j (c.scope j).lines.toList →
      P' c' j ((c.scope j).lines.toList ++ ls)) :
    Lined P' N c' where
  placed i inside position := by
    rw [w.size] at inside
    rw [(w.reaches.grows.scope i inside).placed] at position
    by_cases own : i = j
    · subst own
      rw [w.lines]
      exact fits inside (h.placed i inside position)
    · rw [w.others i inside own]
      exact old (h.placed i inside position)
  nested i inside position := by
    rw [w.size] at inside
    rw [(w.reaches.grows.scope i inside).placed] at position
    rw [w.unplaced inside position]
    exact h.nested i inside position

theorem Lined.opens (h : Lined P N c) (opens : Opens N c c') (old : ∀ {i ls}, P c i ls → P c' i ls)
    (empty : ∀ i, P c' i []) : Lined P N c' where
  placed i inside position := by
    rcases lt_or_ge i c.scopes.size with there | fresh
    · rw [opens.old i there] at position ⊢
      exact old (h.placed i there position)
    · rw [(opens.new i inside fresh).1 position]
      exact empty i
  nested i inside position := by
    rcases lt_or_ge i c.scopes.size with there | fresh
    · rw [opens.old i there] at position ⊢
      exact h.nested i there position
    · exact (opens.new i inside fresh).2 position

theorem Lined.idle (h : Lined P N c) (idle : Idle c c') (old : ∀ {i ls}, P c i ls → P c' i ls)
    (congr : ∀ {s s' : Scope}, s'.args = s.args → s'.lines = s.lines → N s → N s') :
    Lined P N c' where
  placed i inside position := by
    rw [idle.placed i] at position
    rw [idle.lines i]
    exact old (h.placed i (idle.scopes ▸ inside) position)
  nested i inside position := by
    rw [idle.placed i] at position
    exact congr (idle.args i) (idle.lines i) (h.nested i (idle.scopes ▸ inside) position)

theorem Reaches.opens (h : Reaches c c') (scopes : c'.scopes = c.scopes) : Opens N c c' := by
  refine ⟨h, fun i _ => by rw [Context.scope, scopes, Context.scope], fun i inside fresh => ?_⟩
  rw [scopes] at inside
  exact absurd inside (not_lt.2 fresh)

theorem ConstantSlot.opens {v : Value} {slot : Nat} (h : ConstantSlot id v c slot c') :
    Opens N c c' := (h.respected respected_reaches).opens (by cases h <;> rfl)

theorem InjectedSlot.opens {name : String} {v : Value} {slot : Nat}
    (h : InjectedSlot name v c slot c') :
    Opens N c c' := (h.respected respected_reaches).opens (by cases h <;> rfl)

theorem opens_readAgain {node : NodeId} {reader id : DispatchId}
    (reads : c.currentScope.dispatch = some reader) (known : c.caches.lookup node = some id) :
    Opens N c (c.readAgain reader id) :=
  Reaches.opens (.single (.readAgain c node reader id reads known)) (by rw [readAgain_frame])

theorem opens_cacheOpened {n : Node} {reader : DispatchId} (reduction : Int)
    (reads : c.currentScope.dispatch = some reader) (unknown : c.caches.lookup n.id = none) :
    Opens N c (c.cacheOpened n reader reduction) := by
  refine ⟨.single (.cacheOpened c n reader reduction reads unknown),
    fun i inside => scope_cacheOpened_of_lt n reader reduction inside, fun i inside fresh => ?_⟩
  obtain rfl := eq_size_of_push inside fresh
  rw [scope_cacheOpened]
  exact ⟨fun _ => rfl, nofun⟩

theorem opens_nestedAdded {caller : ScopeId} {spec : Nested} {t : Template}
    (unknown : c.nested.lookup spec.key = none) (own : N (c.nestedScope caller spec ws t)) :
    Opens N c (c.nestedAdded caller spec ws t) := by
  refine ⟨.single (.nestedAdded c caller spec ws t unknown),
    fun i inside => (scope_push c _ i).trans (if_neg (inside.ne)), fun i inside fresh => ?_⟩
  obtain rfl := eq_size_of_push inside fresh
  rw [scope_nestedAdded]
  exact ⟨nofun, fun _ => own⟩

end

/-! ## walks -/

/-- functions of dispatches are walks that start with the position; nested ones are complete -/
def Walks : Context → Prop :=
  Lined (fun c _ ls => Scoped (SlotAt c) [.position] ls) fun s => ∀ p, WellScoped p s

section
variable (h : Walks c)
include h

theorem Walks.push (k : Kept c) (w : Wrote c c' j ls)
    (walk : Scoped (SlotAt c) (c.scope j).known ls) : Walks c' := by
  have later {known : List Var} {ls : List Indented} (h : Scoped (SlotAt c) known ls) :
      Scoped (SlotAt c') known ls := h.mono fun _ _ slot => slot.later w.reaches.grows
  refine Lined.push h w later fun inside before => (later before).append (later walk) ?_
  obtain ⟨ms, lines, numbered⟩ := (w.reaches.grows.scope j inside).lines
  obtain rfl := append_cancel_left (w.lines.symm.trans lines)
  intro l member v sets
  obtain ⟨m, above, -, var⟩ := numbered l member v sets
  exact not_known k inside w.position above var

theorem Walks.opens (opens : Opens (fun s => ∀ p, WellScoped p s) c c') : Walks c' :=
  Lined.opens h opens (fun walk => walk.mono fun _ _ slot =>
    slot.later opens.reaches.grows) fun _ => trivial

theorem Walks.idle (idle : Idle c c') : Walks c' := by
  have slots : SlotAt c' = SlotAt c := by
    unfold SlotAt
    rw [idle.parameters]
  exact Lined.idle h idle (fun walk => slots ▸ walk) fun args lines well p =>
    (well p).congr args lines

theorem Walks.declared (k : Kept c) (shape : Shape) {e : Expr}
    (reads : ∀ s ∈ e.symbols, Readable (SlotAt c) (c.scope c.current).known s) (id : NodeId) :
    Walks (c.declared shape e) ∧ InReach (c.declared shape e) c.current id c.nextBound := by
  have wrote := wrote_declared k shape e
  refine ⟨h.push k wrote ⟨⟨reads, ?_, nofun⟩, nofun, trivial⟩, ?_⟩
  · intro v introduces
    cases introduces
    exact not_known k k.current.1 k.current.2 (lt_add_one _) (.inl rfl)
  · show _ ∈ Scope.known _
    rw [known_append wrote.lines]
    exact mem_append_cons_self

theorem Walks.called (k : Kept c) (function : String) (shape : Shape)
    {args : List Symbol} (reads : ∀ s ∈ args, Readable (SlotAt c) (c.scope c.current).known s)
    (id : NodeId) : Walks (c.called function shape args) ∧
      InReach (c.called function shape args) c.current id (.var (.result (c.names + 1))) := by
  have wrote := wrote_called k function shape args
  refine ⟨h.push k wrote ⟨⟨nofun, ?_, nofun⟩, nofun, ⟨?_, nofun, nofun⟩, nofun, trivial⟩, ?_⟩
  · intro v introduces
    cases introduces
    exact not_known k k.current.1 k.current.2 (lt_add_one _) (.inr rfl)
  · refine forall_mem_append.2 ⟨fun x member => ?_, forall_mem_singleton.2 mem_append_cons_self⟩
    exact (reads x member).mono (fun _ _ slot => slot) (subset_append_left _ _)
  · show _ ∈ Scope.known _
    rw [known_append wrote.lines]
    exact mem_append_cons_self

theorem Walks.function {n : Node} {r : Routine} {spec : Nested} {t : Template}
    {callee : ScopeId} (parts : nestedParts n = some (r, spec, t)) (inputs : n.inputs = ws.map some)
    (typed : n.typing = .ok n.shape) (function : FunctionOf spec ws t c callee c') : Walks c' := by
  cases function with
  | again known => exact (h.idle (idle_fold c _)).idle (idle_deepened _ _ _)
  | first unknown =>
    exact (h.idle (idle_fold c _)).opens (opens_nestedAdded unknown fun p =>
      wellScoped_nested parts inputs typed)

theorem Walks.store (k : Kept c) {output : String} {s : Symbol}
    (w : Wrote c c' j [⟨0, .store output (.sym s)⟩]) (reads : InReach c j id s) : Walks c' :=
  h.push k w ⟨⟨fun _ member => mem_singleton.1 member ▸ reads, fun _ => nofun, fun _ => nofun⟩,
    fun _ => nofun, trivial⟩

end

end

/-! ## compilations -/

/-- the tables are in order and functions are walks -/
structure Proper (g : Graph) (done : List NodeId) (o : Options) (c : Context) : Prop where
  registered : Registered g (· ∈ done) o c
  walks : Walks c

section
variable {g : Graph} {o : Options} {c c' : Context} {done : List NodeId}

theorem held_registered (held : Held done (Proper g done o) InReach c) :
    Held done (Registered g (· ∈ done) o) (fun _ _ _ _ => True) c :=
  ⟨held.kept, held.linked, held.fact.registered, fun _ _ _ _ _ => trivial, held.position⟩

theorem preserved_proper (g : Graph) (o : Options) (done : List NodeId) :
    Preserved g done (Proper g done o) InReach where
  idle idle h := ⟨(preserved_registered g o done).idle idle h.registered, h.walks.idle idle⟩
  later reaches _ _ inside _ reads := reads.later reaches.grows inside
  start _ empty := .head _
  constant {c c' n v slot} held accepted op taken l' := by
    have tables := ((preserved_registered g o done).constant (held_registered held)
      accepted op taken l').1
    obtain ⟨walks, member⟩ : Walks c' ∧ (n.id, slot) ∈ c'.constantSlots := by
      refine ⟨held.fact.walks.opens taken.opens, ?_⟩
      cases taken with
      | again known => exact mem_of_lookup known
      | first unknown => exact .head _
    obtain ⟨n', v', found, op', listed⟩ := tables.slotted.constant _ member
    cases accepted.found.symm.trans found
    cases op.symm.trans op'
    exact ⟨⟨tables, walks⟩, _, listed, rfl⟩
  inject {c c' n name shape fallback v slot} held accepted op bound fits taken l' := by
    have tables := ((preserved_registered g o done).inject (held_registered held) accepted op bound
      fits taken l').1
    refine ⟨⟨tables, held.fact.walks.opens taken.opens⟩, ?_⟩
    cases taken with
    | again known same =>
      obtain ⟨-, -, -, v', -, -, -, listed⟩ := tables.slotted.injected _ (mem_of_lookup known)
      rw [listed] at same
      exact ⟨_, listed, same.trans fits⟩
    | first unknown => exact ⟨_, getElem?_concat_length, fits⟩
  ref _ _ _ _ reads := reads
  same _ _ _ _ reads := reads
  term {c c' n ws ss} held accepted plain inputs typed reads provided made l' := by
    have tables := ((preserved_registered g o done).term (held_registered held) accepted plain
      inputs typed (reads.imp fun _ _ _ => trivial) provided made l').1
    subst made
    have walks := held.fact.walks.declared held.kept n.shape (e := Compile.term n (ss.map Expr.sym))
      (fun s member => readable_of_mem reads s (term_symbols n ss s member)) n.id
    exact ⟨⟨tables, walks.1⟩, walks.2⟩
  distance {c d c' n metric v w a b} held accepted op inputs first second made made' l' := by
    have tables := ((preserved_registered g o done).distance (held_registered held) accepted op
      inputs trivial trivial made made' l').1
    have difference := held.fact.walks.declared held.kept (n.inputShape 0)
      (e := .sub (.sym a) (.sym b)) (forall_mem_cons.2 ⟨first, forall_mem_singleton.2 second⟩) n.id
    rw [← made] at difference
    have kept : Kept d := made ▸ (Change.declared c _ _).kept held.kept
    have current : d.current = c.current := by rw [made]; rfl
    have walks := difference.1.declared kept n.shape
      (e := .metric metric (.sym c.nextBound) (n.inputShape 0))
      (fun s member => by
        rw [mem_singleton.1 (metric_symbols _ _ _ s member), current]
        exact difference.2) n.id
    rw [← made', current] at walks
    exact ⟨⟨tables, walks.1⟩, walks.2⟩
  nested {c d c' n r spec t ws ss callee} held accepted parts inputs typed reads provided
      function made l' := by
    have tables := ((preserved_registered g o done).nested (held_registered held) accepted parts
      inputs typed (reads.imp fun _ _ _ => trivial) provided function made l').1
    have walks := held.fact.walks.function parts inputs typed function
    have kept := function.reaches.kept held.kept
    have current : d.current = c.current := by cases function <;> rfl
    have later := reads.imp fun _ _ h => InReach.later h function.reaches.grows held.kept.current.1
    rw [← current] at later
    have called := walks.called kept (d.scope callee).name spec.result (readable_of_mem later) n.id
    rw [← made, current] at called
    exact ⟨⟨tables, called.1⟩, called.2⟩
  again {c n reader id} held accepted reads known l' :=
    ⟨(preserved_registered g o done).again (held_registered held) accepted reads known l',
      held.fact.walks.opens (opens_readAgain reads known)⟩
  opened {c n reduction w reader} held accepted op inputs reads unknown l' :=
    ⟨(preserved_registered g o done).opened (held_registered held) accepted op inputs reads unknown
      l', held.fact.walks.opens (opens_cacheOpened reduction reads unknown)⟩
  closed {c c' n reduction w id s} held accepted op inputs positive inside own cached unwritten
      reads made l' :=
    ⟨(preserved_registered g o done).closed (held_registered held) accepted op inputs positive
      inside own cached unwritten trivial made l',
      held.fact.walks.store held.kept (made ▸ wrote_cacheClosed held.kept _ _ _ _) reads⟩
  sampled {c c' n reduction id output more} held accepted op positive inside cached outputs
      provided made l' := by
    have tables := ((preserved_registered g o done).sampled (held_registered held) accepted op
      positive inside cached outputs provided made l').1
    subst made
    have walks := held.fact.walks.declared held.kept n.shape
      (e := sampleExpr output.buffer reduction) (fun s member => by
        obtain rfl := mem_singleton.1 member
        exact .head _) n.id
    exact ⟨⟨tables, walks.1⟩, walks.2⟩

theorem walks_opened (o : Options) : Walks (Context.opened o) := by
  refine ⟨fun i inside _ => ?_, fun i inside position => ?_⟩
  all_goals obtain rfl := Nat.lt_one_iff.1 inside
  · trivial
  · cases position

theorem parsed_walks {roots : List Root} (wf : g.WellFormed) (h : g.parsed roots o = .ok c) :
    Walks c := by
  obtain ⟨done, -, -, -, proper⟩ :=
    parsed_holds (I := fun done _ => Proper g done o) (P := fun _ => InReach) wf h
    (fun _ => ⟨registered_opened g _ o, walks_opened o⟩) (fun done _ _ => preserved_proper g o done)
    fun _ _ {_ r n s _} held _ _ reads _ =>
      ⟨held.fact.registered.rooted held.kept r n.shape s,
        held.fact.walks.store held.kept (wrote_rooted held.kept r n.shape s) reads⟩
  exact proper.walks

/-! ## names -/

theorem readSymbol_var (h : (Symbol.var v).IsValue) : readSymbol v.text.toList = .var v :=
  readSymbol_text h

theorem Kept.numbered (k : Kept c) (inside : i < c.scopes.size)
    (position : (c.scope i).hasPosition = true) (member : v ∈ introduced (c.scope i).lines.toList) :
    readSymbol v.text.toList = .var v ∧ v ≠ .position := by
  obtain ⟨l, there, introduces⟩ := mem_filterMap.1 member
  obtain ⟨m, -, -, rfl | rfl⟩ :=
    k.serials i inside position l there v (Line.sets_of_introduces introduces)
  · exact ⟨readSymbol_var (.bound m), nofun⟩
  · exact ⟨readSymbol_var (.result m), nofun⟩

theorem readSymbol_output (name : String) :
    readSymbol ("out_" ++ name).toList = .var .position := by
  rw [String.toList_append]
  rfl

theorem distinct_names (k : Kept c) (inside : i < c.scopes.size)
    (position : (c.scope i).hasPosition = true)
    (h : Scoped (SlotAt c) [.position] (c.scope i).lines.toList) {names : List String}
    (outputs : (names.map fun name => "out_" ++ name).Nodup) :
    ("position" :: names.map (fun name => "out_" ++ name) ++
      (introduced (c.scope i).lines.toList).map Var.text).Nodup := by
  have locals : ((introduced (c.scope i).lines.toList).map Var.text).Nodup := by
    refine Nodup.map_on (fun v there w there' same => ?_)
      (nodup_cons.1 (h.nodup (nodup_singleton _))).2
    have read := (k.numbered inside position there).1
    rw [same, (k.numbered inside position there').1] at read
    exact (Symbol.var.inj read).symm
  have args : ("position" :: names.map fun name => "out_" ++ name).Nodup := by
    refine nodup_cons.2 ⟨fun member => ?_, outputs⟩
    obtain ⟨name, -, same⟩ := mem_map.1 member
    have lists := congrArg String.toList same
    rw [String.toList_append] at lists
    cases lists
  refine nodup_append.2 ⟨args, locals, fun x there y there' same => ?_⟩
  obtain ⟨v, member, rfl⟩ := mem_map.1 there'
  obtain ⟨read, other⟩ := k.numbered inside position member
  have position : readSymbol x.toList = .var .position := by
    rcases mem_cons.1 there with rfl | there
    · rfl
    · obtain ⟨name, -, rfl⟩ := mem_map.1 there
      exact readSymbol_output name
  rw [same, read] at position
  exact other (Symbol.var.inj position)

/-! ## programs -/

theorem sampled_buffer (l : Linked done c) (h : Buffered c) {d : DispatchId}
    (inside : d < c.entries.size) {b : String} (member : b ∈ (c.scope (c.entry d).scope).samples) :
    ∃ buffer ∈ c.buffers, buffer.symbol = b := by
  obtain ⟨e, reads, written⟩ := l.sampled d inside b member
  unfold Entry.buffers at written
  rw [← h.outputs e (l.deep.ranked d inside e reads).2.1, map_map] at written
  obtain ⟨buffer, there, same⟩ := mem_map.1 written
  exact ⟨buffer, (mem_filter.1 there).1, same⟩

theorem Computes.wellScoped {d : DispatchId} {ws : List Computed} (h : Computes g c d ws)
    (k : Kept c) (l : Linked done c) (buffered : Buffered c) (walks : Walks c)
    (inside : d < c.entries.size) (names : List String)
    (arguments : ws.map Computed.argument = names.map fun name => "out_" ++ name)
    (outputs : (names.map fun name => "out_" ++ name).Nodup) :
    WellScoped c.toProgram (c.scope (c.entry d).scope) := by
  obtain ⟨there, position, -⟩ := k.entryScope d inside
  have walk := walks.placed _ there position
  have args : (c.scope (c.entry d).scope).args.map Argument.name =
      "position" :: names.map fun name => "out_" ++ name := by
    rw [h.args, map_cons, map_map, ← arguments]
    rfl
  refine walk.wellScoped (fun _ _ slot => slot) (fun v member => ?_)
    (fun b member => sampled_buffer l buffered inside member) ?_ ?_
  · obtain rfl := mem_singleton.1 member
    exact ⟨positionArgument, h.args ▸ .head _, rfl, rfl⟩
  · rw [args]
    exact distinct_names k there position walk outputs
  · rw [← unfold_outputs (m := c.meanings), h.stored, h.args, map_map,
      filter_cons_of_neg (by decide), filter_eq_self.2, map_map]
    · rfl
    · intro a member
      obtain ⟨w, -, rfl⟩ := mem_map.1 member
      rfl

theorem parsed_wellScoped (built : g.Built) {roots : List Root} (h : g.parsed roots o = .ok c)
    (inside : i < c.scopes.size) : WellScoped c.toProgram (c.scope i) := by
  have walks := parsed_walks built.wellFormed h
  cases position : (c.scope i).hasPosition with
  | false => exact walks.nested i inside position _
  | true =>
    obtain ⟨done, l, k, -, -⟩ := linked_of_parsed built.wellFormed h
    have buffered := (parsed_registered built.wellFormed h).buffered
    obtain ⟨main, cache⟩ := parsed_computes built h
    obtain ⟨d, there, -, rfl⟩ := k.dispatch i inside position
    rcases Nat.eq_zero_or_pos d with rfl | positive
    · obtain ⟨-, valid, -⟩ := parsed_ok h
      refine main.wellScoped k l buffered walks there (roots.map Root.target) ?_ ?_
      · rw [map_map, map_map]
        rfl
      · exact (validate_fits valid).2.map fun _ _ same => (String.append_right_inj _).1 same
    · obtain ⟨n, w, -, -, -, -, computes⟩ := cache d there positive
      exact computes.wellScoped k l buffered walks there ["value"] rfl
        (nodup_singleton _)

end

end Compile

open Compile

/-- **Generated functions are well scoped.**  Lines use arguments, earlier locals, slots at their
shapes and buffers of the program; names are introduced once; and each output is stored once, behind
all that its value depends on. -/
theorem compile_wellScoped {g : Graph} (built : g.Built) {roots : List Root} {o : Options}
    {p : Program} (h : g.compile roots o = .ok p) :
    ∃ c, g.parsed roots o = .ok c ∧ p = c.toProgram ∧
      ∀ i ∈ c.writtenScopes, WellScoped p (c.scope i) := by
  obtain ⟨c, parsed, rfl⟩ := compile_ok_iff.1 h
  refine ⟨c, parsed, rfl, fun i written => ?_⟩
  exact parsed_wellScoped built parsed (List.mem_range.1 ((parsed_scopes parsed).mem_iff.1 written))

/-- octaves of noise under a cache and beside it, scaled by a parameter -/
def cachedNoise : Graph :=
  let g := (Graph.initial.insert (.inject "scale" .float (some (.scalar .one))) []).2
  let g := (g.insert (.fractal .perlin 3) [.node 1, .node 2, .node 2]).2
  let g := (g.insert (.cache 1) [.node 3]).2
  let g := (g.insert (.binary .mul) [.node 4, .node 2]).2
  (g.insert (.binary .add) [.node 5, .node 3]).2

theorem built_cachedNoise : cachedNoise.Built :=
  .insert _ _ (.insert _ _
    (.insert _ _ (.insert _ _ (.insert _ _ .initial (by simp) rfl) (by simp) rfl)
    (by simp) rfl) (by simp) rfl) (by simp) rfl

theorem compile_wellScoped_noise :
    ∃ (p : Program) (c : Context), cachedNoise.compile [⟨"density", some 6⟩] ⟨[], some [], 0⟩ =
      .ok p ∧ c.scopes.toList.map Scope.name = ["vg_voxels", "vg_cache_1", "vg_fractal_2"] ∧
        ∀ i ∈ c.writtenScopes, WellScoped p (c.scope i) := by
  obtain ⟨c, parsed, names⟩ :
      ∃ c, cachedNoise.parsed [⟨"density", some 6⟩] ⟨[], some [], 0⟩ = .ok c ∧
        c.scopes.toList.map Scope.name = ["vg_voxels", "vg_cache_1", "vg_fractal_2"] := by
    decide +kernel
  have compiled : cachedNoise.compile [⟨"density", some 6⟩] ⟨[], some [], 0⟩ = .ok c.toProgram :=
    compile_ok_iff.2 ⟨c, parsed, rfl⟩
  obtain ⟨c', parsed', -, holds⟩ := compile_wellScoped built_cachedNoise compiled
  cases parsed.symm.trans parsed'
  exact ⟨c.toProgram, c, compiled, names, holds⟩

end Terrain
