import Terrain.Proofs.References

/-!
# The graph of a document

Each needed name has one node, over the nodes of the names it refers to and over constants of its
literals. Nothing else is added to the graph.

* `Feeds`          the node that an input became;
* `Laid`           the table of names: each was built after what it refers to, once;
* `Result`         what resolving an input does to the table and to the graph;
* `resolve_laid`   resolving a name has such a result;
* `Drawn`          the graph of a document, by the nodes of its names;
* `roots_drawn`    what a document builds.
-/

namespace Terrain.Document

open List

variable {xs : List NodeId} {visit : String → BuildM NodeId}

/-- the node that an input became: that of a name that was built earlier, or the constant of a
literal, which no name has -/
def Feeds (old g : Graph) (earlier : List (String × NodeId)) : Input → NodeId → Prop
  | .reference name, id =>
    if name = positionName then id = Graph.positionId else earlier.lookup name = some id
  | .literal _ s, id => ∃ v, s.toValue = .ok v ∧ g.get? id = some ⟨id, .constant v, []⟩ ∧
    old.size < id ∧ ∀ p ∈ earlier, p.2 ≠ id
  | .unreadable _, _ => False

inductive Laid (doc : Document) (old g : Graph) : List (String × NodeId) → Prop
  | nil : Laid doc old g []
  | cons {name : String} {id : NodeId} {spec : NodeSpec} {op : Op} {ws : List Wire}
      {earlier : List (String × NodeId)} (needed : doc.Needed name) (other : name ≠ positionName)
      (specified : doc.Specifies name spec op) (new : earlier.lookup name = none)
      (found : g.get? id = some ⟨id, op, ws.map some⟩) (behind : old.size < id)
      (later : ∀ p ∈ earlier, p.2 < id) (lower : ∀ w ∈ ws, w.source < id)
      (feeds : Forall₂ (Feeds old g earlier) spec.inputs (ws.map Wire.source))
      (rest : Laid doc old g earlier) : Laid doc old g ((name, id) :: earlier)

section
variable {doc : Document} {old g g' : Graph} {earlier table : List (String × NodeId)}
variable {a b name : String} {x y id : NodeId} {i : Input}

/-! ## tables -/

theorem forall₂_imp_right {α β : Type} {R S : α → β → Prop} {as : List α} {bs : List β}
    (h : Forall₂ R as bs) (step : ∀ a b, b ∈ bs → R a b → S a b) : Forall₂ S as bs := by
  induction h with
  | nil => exact .nil
  | cons head _ ih =>
    refine .cons (step _ _ (.head _) head) (ih fun a b member => ?_)
    exact step a b (.tail _ member)

theorem Feeds.converts (h : Feeds old g earlier i x) : i.Converts := by
  cases i with
  | reference name => trivial
  | literal line s =>
    obtain ⟨v, value, -⟩ := h
    exact ⟨v, value⟩
  | unreadable line => exact h

theorem exists_of_forall₂ {α β : Type} {R : α → β → Prop} {as : List α} {bs : List β}
    (h : Forall₂ R as bs) {a : α} (member : a ∈ as) : ∃ b ∈ bs, R a b := by
  induction h with
  | nil => cases member
  | @cons a' b' _ _ head _ ih =>
    rcases mem_cons.1 member with rfl | member
    · exact ⟨b', .head _, head⟩
    · obtain ⟨b, there, own⟩ := ih member
      exact ⟨b, .tail _ there, own⟩

theorem Feeds.append (h : Feeds old g earlier i x) (more : List (String × NodeId))
    (grows : ∀ {id n}, g.get? id = some n → g'.get? id = some n)
    (known : ∀ {a y}, earlier.lookup a = some y → (more ++ earlier).lookup a = some y)
    (later : ∀ p ∈ more, p.2 ≠ x) : Feeds old g' (more ++ earlier) i x := by
  cases i with
  | reference name =>
    unfold Feeds at h ⊢
    dsimp only at h ⊢
    split at h
    case isTrue position => rwa [if_pos position]
    case isFalse node =>
      rw [if_neg node]
      exact known h
  | literal line s =>
    obtain ⟨v, value, found, behind, apart⟩ := h
    exact ⟨v, value, grows found, behind, forall_mem_append.2 ⟨later, apart⟩⟩
  | unreadable line => exact h

theorem Laid.mono (h : Laid doc old g table)
    (grows : ∀ {id n}, g.get? id = some n → g'.get? id = some n) : Laid doc old g' table := by
  induction h with
  | nil => exact .nil
  | cons needed other specified new found behind later lower feeds rest ih =>
    refine .cons needed other specified new (grows found) behind later lower ?_ ih
    exact feeds.imp fun i x own =>
      own.append [] grows (fun known => known) nofun

theorem Laid.lookup_append {more : List (String × NodeId)} (h : Laid doc old g (more ++ earlier))
    (known : earlier.lookup a = some x) : (more ++ earlier).lookup a = some x := by
  induction more with
  | nil => exact known
  | cons p more ih =>
    cases h with
    | cons _ _ _ new _ _ _ _ _ rest => exact lookup_cons_of_new new (ih rest)

theorem Laid.inj (h : Laid doc old g table) (left : table.lookup a = some x)
    (right : table.lookup b = some x) : a = b := by
  induction h with
  | nil => cases left
  | @cons name id _ _ _ earlier _ _ _ _ _ _ later _ _ _ ih =>
    rw [lookup_cons] at left right
    split at left
    case h_1 first =>
      cases left
      split at right
      case h_1 second => rw [beq_iff_eq.1 first, beq_iff_eq.1 second]
      case h_2 => exact absurd (later _ (mem_of_lookup right)) (lt_irrefl _)
    case h_2 =>
      split at right
      case h_1 =>
        cases right
        exact absurd (later _ (mem_of_lookup left)) (lt_irrefl _)
      case h_2 => exact ih left right

/-- what a table says about the node of a name -/
structure Settled (doc : Document) (old g : Graph) (table : List (String × NodeId)) (a : String)
    (x : NodeId) (spec : NodeSpec) (op : Op) (ws : List Wire) : Prop where
  needed : doc.Needed a
  other : a ≠ positionName
  specified : doc.Specifies a spec op
  found : g.get? x = some ⟨x, op, ws.map some⟩
  behind : old.size < x
  lower : ∀ w ∈ ws, w.source < x
  feeds : Forall₂ (Feeds old g table) spec.inputs (ws.map Wire.source)

theorem Laid.settled (h : Laid doc old g table) (known : table.lookup a = some x) :
    ∃ spec op ws, Settled doc old g table a x spec op ws := by
  induction h with
  | nil => cases known
  | @cons name id spec op ws earlier needed other specified new found behind later
    lower feeds rest ih =>
    -- the last name has the largest number
    have keep {ws : List Wire} {is : List Input} (lower : ∀ w ∈ ws, w.source < id)
        (feeds : Forall₂ (Feeds old g earlier) is (ws.map Wire.source)) :
        Forall₂ (Feeds old g ((name, id) :: earlier)) is (ws.map Wire.source) := by
      refine forall₂_imp_right feeds fun i x member own => ?_
      obtain ⟨w, there, rfl⟩ := mem_map.1 member
      refine own.append [(name, id)] (fun found => found) (lookup_cons_of_new new) ?_
      exact forall_mem_singleton.2 ((lower w there).ne')
    rw [lookup_cons] at known
    split at known
    case h_1 same =>
      cases known
      cases beq_iff_eq.1 same
      exact ⟨spec, op, ws, needed, other, specified, found, behind, lower, keep lower feeds⟩
    case h_2 =>
      obtain ⟨spec', op', ws', own⟩ := ih known
      have less := later _ (mem_of_lookup known)
      exact ⟨spec', op', ws', own.needed, own.other, own.specified, own.found, own.behind,
        own.lower, keep (fun w member => (own.lower w member).trans less) own.feeds⟩

end

/-! ## steps -/

/-- a node of a name in the table, or an operand of one -/
def Covered (b : Builder) (k : NodeId) : Prop :=
  ∃ p ∈ b.built, p.2 = k ∨ ∃ n w, b.graph.get? p.2 = some n ∧ some w ∈ n.inputs ∧ w.source = k

/-- what building on `old` comes to: the world position is there, and the table is in order -/
structure Sketch (doc : Document) (old : Graph) (b : Builder) : Prop where
  size : old.size ≤ b.graph.size
  position : b.graph.get? Graph.positionId = some ⟨Graph.positionId, .position, []⟩
  laid : Laid doc old b.graph b.built

/-- nodes and names are added, none of them a name on the path -/
structure Grown (path : List String) (b b' : Builder) : Prop where
  size : b.graph.size ≤ b'.graph.size
  graph : ∀ {id n}, b.graph.get? id = some n → b'.graph.get? id = some n
  built : ∃ more, b'.built = more ++ b.built ∧ ∀ p ∈ more, p.1 ∉ path ∧ b.graph.size < p.2

structure Result (doc : Document) (old : Graph) (path : List String) (is : List Input) (b : Builder)
    (xs : List NodeId) (b' : Builder) : Prop where
  sketch : Sketch doc old b'
  grown : Grown path b b'
  feeds : Forall₂ (Feeds old b'.graph b'.built) is xs
  covers : ∀ k, b.graph.size < k → k ≤ b'.graph.size → k ∈ xs ∨ Covered b' k

section
variable {doc : Document} {old : Graph} {path : List String} {b b' d : Builder}

theorem Grown.refl (path : List String) (b : Builder) : Grown path b b where
  size := le_rfl
  graph h := h
  built := ⟨[], rfl, nofun⟩

theorem Grown.trans (h : Grown path b d) (h' : Grown path d b') : Grown path b b' where
  size := h.size.trans h'.size
  graph found := h'.graph (h.graph found)
  built := by
    obtain ⟨more, same, new⟩ := h.built
    obtain ⟨more', same', new'⟩ := h'.built
    refine ⟨more' ++ more, by rw [same', same, append_assoc], forall_mem_append.2 ⟨?_, new⟩⟩
    exact fun p member => ⟨(new' p member).1, h.size.trans_lt (new' p member).2⟩

theorem Covered.grown {k : NodeId} (h : Covered d k) (grown : Grown path d b') : Covered b' k := by
  obtain ⟨more, same, -⟩ := grown.built
  obtain ⟨p, member, own⟩ := h
  refine ⟨p, same ▸ mem_append_right _ member, own.imp_right ?_⟩
  rintro ⟨n, w, found, input⟩
  exact ⟨n, w, grown.graph found, input⟩

theorem Sketch.feeds_one {i : Input} {x : NodeId} (h : Sketch doc old b)
    (feeds : Feeds old b.graph b.built i x) : ∃ n, b.graph.get? x = some n ∧ n.id = x := by
  cases i with
  | reference name =>
    unfold Feeds at feeds
    dsimp only at feeds
    split at feeds
    · rw [feeds]
      exact ⟨_, h.position, rfl⟩
    · obtain ⟨spec, op, ws, own⟩ := h.laid.settled feeds
      exact ⟨_, own.found, rfl⟩
  | literal line s =>
    obtain ⟨v, -, found, -⟩ := feeds
    exact ⟨_, found, rfl⟩
  | unreadable line => exact feeds.elim

theorem Sketch.feeds_there {is : List Input} (h : Sketch doc old b)
    (feeds : Forall₂ (Feeds old b.graph b.built) is xs) :
    ∀ x ∈ xs, ∃ n, b.graph.get? x = some n ∧ n.id = x := by
  induction feeds with
  | nil => exact nofun
  | cons own _ ih => exact forall_mem_cons.2 ⟨h.feeds_one own, ih⟩

theorem Grown.feeds {i : Input} {x : NodeId} (grown : Grown path b b') (h : Sketch doc old b)
    (h' : Sketch doc old b') (feeds : Feeds old b.graph b.built i x) :
    Feeds old b'.graph b'.built i x := by
  obtain ⟨more, same, new⟩ := grown.built
  obtain ⟨n, there, -⟩ := h.feeds_one feeds
  have laid := h'.laid
  rw [same] at laid ⊢
  refine feeds.append more grown.graph laid.lookup_append fun p member is => ?_
  exact absurd (is ▸ (new p member).2) (Nat.not_lt_of_le (Graph.le_size_of_get? there).2)

theorem Result.cons {i : Input} {is : List Input} {x : NodeId} {xs : List NodeId}
    (head : Result doc old path [i] b [x] d) (tail : Result doc old path is d xs b') :
    Result doc old path (i :: is) b (x :: xs) b' where
  sketch := tail.sketch
  grown := head.grown.trans tail.grown
  feeds := by
    cases head.feeds with
    | cons own _ => exact .cons (tail.grown.feeds head.sketch tail.sketch own) tail.feeds
  covers k new inside := by
    by_cases first : k ≤ d.graph.size
    · rcases head.covers k new first with single | covered
      · exact .inl (mem_singleton.1 single ▸ .head _)
      · exact .inr (covered.grown tail.grown)
    · exact (tail.covers k (Nat.lt_of_not_le first) inside).imp_left (mem_cons_of_mem _)

theorem result_nil (h : Sketch doc old b) : Result doc old path [] b [] b where
  sketch := h
  grown := .refl path b
  feeds := .nil
  covers _ new inside := absurd new (Nat.not_lt_of_le inside)

theorem result_known {i : Input} {x : NodeId} (h : Sketch doc old b)
    (feeds : Feeds old b.graph b.built i x) : Result doc old path [i] b [x] b where
  sketch := h
  grown := .refl path b
  feeds := .cons feeds .nil
  covers _ new inside := absurd new (Nat.not_lt_of_le inside)

theorem Laid.found {g : Graph} {table : List (String × NodeId)} (h : Laid doc old g table) :
    ∀ p ∈ table, p.2 ≤ g.size := by
  induction h with
  | nil => exact nofun
  | cons _ _ _ _ found _ _ _ _ _ ih =>
    exact forall_mem_cons.2 ⟨(Graph.le_size_of_get? found).2, ih⟩

theorem exists_wires {g : Graph} {ids : List NodeId}
    (there : ∀ x ∈ ids, ∃ n, g.get? x = some n ∧ n.id = x) :
    ∃ ws : List Wire, (ids.map fun x => (g.get? x).map Node.wire) = ws.map some ∧
      ws.map Wire.source = ids := by
  induction ids with
  | nil => exact ⟨[], rfl, rfl⟩
  | cons x ids ih =>
    obtain ⟨n, found, same⟩ := there x (.head _)
    obtain ⟨ws, inputs, sources⟩ := ih fun y member => there y (.tail _ member)
    refine ⟨n.wire :: ws, ?_, ?_⟩
    · rw [map_cons, map_cons, found, inputs]
      rfl
    · rw [map_cons, sources]
      exact congrArg (· :: ids) same

/-- a graph with one more node, over nodes that are there -/
structure Inserted (g : Graph) (op : Op) (ids : List NodeId) (g' : Graph) (ws : List Wire) :
    Prop where
  size : g'.size = g.size + 1
  graph : ∀ {id n}, g.get? id = some n → g'.get? id = some n
  found : g'.get? g.next = some ⟨g.next, op, ws.map some⟩
  sources : ws.map Wire.source = ids

theorem exists_inserted {g : Graph} (op : Op) (ids : List NodeId)
    (there : ∀ x ∈ ids, ∃ n, g.get? x = some n ∧ n.id = x) :
    ∃ ws, Inserted g op ids (g.insert op (ids.map .node)).2 ws := by
  obtain ⟨ws, operands, sources⟩ := exists_wires there
  refine ⟨ws, size_insert_nodes g op ids, fun {id n} found => ?_, ?_, sources⟩
  · have inside : id ≤ g.size := (Graph.le_size_of_get? found).2
    rw [get?_insert_nodes, if_neg ((Nat.lt_succ_of_le inside).ne), found]
  · rw [get?_insert_nodes, operands]
    exact if_pos rfl

section
variable {g : Graph} {op : Op} {ids : List NodeId} {ws : List Wire}

theorem Inserted.grown (h : Inserted b.graph op ids g ws) : Grown path b ⟨g, b.built⟩ where
  size := h.size ▸ Nat.le_succ _
  graph := h.graph
  built := ⟨[], rfl, nofun⟩

theorem Inserted.sketch (h : Inserted b.graph op ids g ws) (sketch : Sketch doc old b) :
    Sketch doc old ⟨g, b.built⟩ where
  size := h.size ▸ Nat.le_succ_of_le sketch.size
  position := h.graph sketch.position
  laid := sketch.laid.mono h.graph

theorem result_literal {line : Nat} {s : Setting} {v : Value} (h : Sketch doc old b)
    (value : s.toValue = .ok v) (made : Inserted b.graph (.constant v) [] g []) :
    Result doc old path [.literal line s] b [b.graph.next] ⟨g, b.built⟩ where
  sketch := made.sketch h
  grown := made.grown
  feeds := .cons ⟨v, value, made.found, Nat.lt_succ_of_le h.size, fun p member =>
    (Nat.lt_succ_of_le (h.laid.found p member)).ne⟩ .nil
  covers k new inside := by
    have inside : k ≤ b.graph.size + 1 := made.size ▸ inside
    exact .inl (mem_singleton.2 (le_antisymm inside new))

theorem Inserted.covered (h : Inserted d.graph op ids g ws) (name : String) {k : NodeId}
    (own : k ∈ ids ∨ Covered d k) : Covered ⟨g, (name, d.graph.next) :: d.built⟩ k := by
  rcases own with operand | ⟨p, member, own⟩
  · rw [← h.sources] at operand
    obtain ⟨w, member, source⟩ := mem_map.1 operand
    exact ⟨_, .head _, .inr ⟨_, w, h.found, mem_map_of_mem member, source⟩⟩
  · refine ⟨p, .tail _ member, own.imp_right ?_⟩
    rintro ⟨n, w, found, input⟩
    exact ⟨n, w, h.graph found, input⟩

theorem result_node {name : String} {spec : NodeSpec} {recipe : Recipe} (needed : doc.Needed name)
    (other : name ≠ positionName) (outside : name ∉ path) (unknown : b.built.lookup name = none)
    (listed : doc.nodes.lookup name = some spec) (known : recipe? spec.op = some recipe)
    (count : spec.inputs.length = recipe.inputs) (made : recipe.make spec = .ok op)
    (inputs : Result doc old (path ++ [name]) spec.inputs b ids d)
    (inserted : Inserted d.graph op ids g ws) :
    Result doc old path [.reference name] b [d.graph.next]
      ⟨g, (name, d.graph.next) :: d.built⟩ := by
  obtain ⟨sketch, grown, feeds, covers⟩ := inputs
  obtain ⟨more, same, new⟩ := grown.built
  have apart {p : String × NodeId} (member : p ∈ more) : p.1 ∉ path ∧ p.1 ≠ name := by
    have outside := (new p member).1
    rw [mem_append, mem_singleton, not_or] at outside
    exact outside
  have specified : doc.Specifies name spec op := by
    refine ⟨listed, ?_, recipe, known, count, made⟩
    exact ((forall₂_and_left _ _).1 (feeds.imp fun i x own => ⟨own.converts, own⟩)).1
  have sketch' := inserted.sketch sketch
  have grown' : Grown path d ⟨g, d.built⟩ := inserted.grown
  have lower : ∀ w ∈ ws, w.source < d.graph.next := by
    intro w member
    have source : w.source ∈ ids := inserted.sources ▸ mem_map_of_mem member
    obtain ⟨n, there, -⟩ := sketch.feeds_there feeds w.source source
    exact Nat.lt_succ_of_le (Graph.le_size_of_get? there).2
  have laid : Laid doc old g ((name, d.graph.next) :: d.built) := by
    refine .cons needed other specified ?_ inserted.found (Nat.lt_succ_of_le sketch.size)
      (fun p member => Nat.lt_succ_of_le (sketch.laid.found p member)) lower ?_ sketch'.laid
    · rw [same]
      exact lookup_append_none (fun p member => (apart member).2) unknown
    · rw [inserted.sources]
      exact feeds.imp fun i x own => grown'.feeds sketch sketch' own
  refine ⟨⟨sketch'.size, sketch'.position, laid⟩,
    ⟨?_, ?_, (name, d.graph.next) :: more, ?_, ?_⟩, ?_, ?_⟩
  · exact grown.size.trans grown'.size
  · exact fun found => grown'.graph (grown.graph found)
  · show _ :: d.built = _
    rw [same]
    rfl
  · exact forall_mem_cons.2 ⟨⟨outside, Nat.lt_succ_of_le grown.size⟩, fun p member =>
      ⟨(apart member).1, (new p member).2⟩⟩
  · refine .cons ?_ .nil
    unfold Feeds
    dsimp only
    rw [if_neg other]
    exact lookup_cons_self
  · intro k behind inside
    have inside : k ≤ d.graph.size + 1 := inserted.size ▸ inside
    by_cases last : k = d.graph.size + 1
    · exact .inl (mem_singleton.2 last)
    exact .inr (inserted.covered name (covers k behind (by omega)))

end

/-! ## resolving -/

/-- what resolving names has as result -/
def Resolves (doc : Document) (old : Graph) (path : List String) (visit : String → BuildM NodeId) :
    Prop :=
  ∀ {name b x b'}, outcome (visit name) b = (.ok x, b') → (name ≠ positionName → doc.Needed name) →
    Sketch doc old b → Result doc old path [.reference name] b [x] b'

theorem laid_buildInput (visits : Resolves doc old path visit) {owner : String} {i : Input}
    {x : NodeId} (h : outcome (buildInput visit owner i) b = (.ok x, b'))
    (needed : ∀ {name}, i = .reference name → name ≠ positionName → doc.Needed name)
    (sketch : Sketch doc old b) : Result doc old path [i] b [x] b' := by
  cases i with
  | reference name => exact visits h (needed rfl) sketch
  | literal line s =>
    unfold buildInput at h
    dsimp only at h
    split at h
    case h_1 v value =>
      rw [outcome_build] at h
      cases h
      obtain ⟨ws, inserted⟩ := exists_inserted (g := b.graph) (.constant v) [] nofun
      obtain rfl := map_eq_nil_iff.1 inserted.sources
      exact result_literal sketch value inserted
    case h_2 => cases h
  | unreadable line => cases h

theorem laid_inputs (visits : Resolves doc old path visit) {owner : String}
    {is : List Input} (h : outcome (is.mapM (buildInput visit owner)) b = (.ok xs, b'))
    (needed : ∀ {name}, .reference name ∈ is → name ≠ positionName → doc.Needed name)
    (sketch : Sketch doc old b) : Result doc old path is b xs b' := by
  induction is generalizing b xs with
  | nil =>
    cases h
    exact result_nil sketch
  | cons i is ih =>
    obtain ⟨x, xs, d, head, tail, rfl⟩ := outcome_mapM_cons.1 h
    have first := laid_buildInput visits head
      (fun same => needed (same ▸ .head _)) sketch
    exact first.cons (ih tail (fun member => needed (.tail _ member)) first.sketch)

theorem buildNode_ok {name : String} {x : NodeId}
    (h : outcome (doc.buildNode visit path name) b = (.ok x, b')) :
    ∃ spec recipe op ids d, doc.nodes.lookup name = some spec ∧ recipe? spec.op = some recipe ∧
      spec.inputs.length = recipe.inputs ∧ recipe.make spec = .ok op ∧
      outcome (spec.inputs.mapM (buildInput visit name)) b = (.ok ids, d) ∧ x = d.graph.next ∧
      b' = ⟨(d.graph.insert op (ids.map .node)).2, (name, d.graph.next) :: d.built⟩ := by
  unfold buildNode at h
  cases listed : doc.nodes.lookup name with
  | none => rw [listed] at h; cases h
  | some spec =>
  rw [listed] at h
  dsimp only at h
  cases known : recipe? spec.op with
  | none => rw [known] at h; cases h
  | some recipe =>
  rw [known] at h
  dsimp only at h
  by_cases count : spec.inputs.length ≠ recipe.inputs
  · rw [if_pos count] at h
    cases h
  rw [if_neg count] at h
  obtain ⟨ids, d, inputs, h⟩ := outcome_bind_ok.1 h
  cases made : recipe.make spec with
  | error fault => rw [made] at h; cases h
  | ok op =>
  rw [made] at h
  obtain ⟨id, e, built, h⟩ := outcome_bind_ok.1 h
  rw [outcome_build] at built
  cases built
  cases h
  exact ⟨spec, recipe, op, ids, d, rfl, known, Decidable.not_not.1 count, made, inputs, rfl, rfl⟩

theorem resolve_laid (fuel : Nat) (path : List String) :
    Resolves doc old path (doc.resolve fuel path) := by
  induction fuel generalizing path with
  | zero =>
    intro name b x b' h
    cases h
  | succ fuel ih =>
    intro name b x b' h needed sketch
    rw [resolve_succ] at h
    by_cases position : name = positionName
    · rw [if_pos position] at h
      cases h
      refine result_known sketch ?_
      unfold Feeds
      dsimp only
      rw [if_pos position]
    rw [if_neg position] at h
    by_cases loop : path.contains name = true
    · rw [if_pos loop] at h
      cases h
    rw [if_neg loop] at h
    obtain ⟨_, _, same, h⟩ := outcome_bind_ok.1 h
    cases same
    cases known : b.built.lookup name with
    | some id =>
      rw [known] at h
      cases h
      refine result_known sketch ?_
      unfold Feeds
      dsimp only
      rwa [if_neg position]
    | none =>
      rw [known] at h
      obtain ⟨spec, recipe, op, ids, d, listed, known', count, made, inputs, rfl, rfl⟩ :=
        buildNode_ok h
      have own := needed position
      have result := laid_inputs (ih (path ++ [name])) inputs
        (fun input node => .input own ⟨node, spec, listed, input⟩) sketch
      obtain ⟨ws, inserted⟩ := exists_inserted op ids (result.sketch.feeds_there result.feeds)
      exact result_node own position (fun member => loop (contains_iff_mem.2 member)) known listed
        known' count made result inserted

theorem laid_roots {targets : List String} {roots : List Root}
    (h : outcome (targets.mapM (buildRoot doc)) b = (.ok roots, b'))
    (bound : ∀ t ∈ targets, ∃ name, doc.outputs.lookup t = some name) (sketch : Sketch doc old b) :
    ∃ xs, Result doc old [] (targets.map fun t => .reference ((doc.outputs.lookup t).getD "")) b xs
      b' ∧ roots = List.zipWith (fun t x => ⟨t, some x⟩) targets xs := by
  induction targets generalizing b roots with
  | nil =>
    cases h
    exact ⟨[], result_nil sketch, rfl⟩
  | cons t targets ih =>
    obtain ⟨r, rs, d, head, tail, rfl⟩ := outcome_mapM_cons.1 h
    obtain ⟨x, e, resolved, made⟩ := outcome_bind_ok.1 head
    cases made
    obtain ⟨name, own⟩ := bound t (.head _)
    have named : doc.outputs.lookup t = some ((doc.outputs.lookup t).getD "") := by
      rw [own]
      rfl
    have first := resolve_laid _ [] resolved (.output named) sketch
    obtain ⟨xs, rest, rfl⟩ := ih tail (fun t member => bound t (.tail _ member)) first.sketch
    exact ⟨x :: xs, first.cons rest, rfl⟩

end

/-! ## what a document draws -/

/-- the node that an input became, by the nodes of names -/
def Draws (doc : Document) (g : Graph) (node : String → NodeId) : Input → NodeId → Prop
  | .reference name, x => x = node name
  | .literal _ s, x => ∃ v, s.toValue = .ok v ∧ g.get? x = some ⟨x, .constant v, []⟩ ∧
    ∀ a, doc.Needed a → node a ≠ x
  | .unreadable _, _ => False

/-- every needed name has one node, over the nodes of the names that it refers to and over constants
of its literals, and nothing else was added -/
structure Drawn (doc : Document) (old g : Graph) (node : String → NodeId) : Prop where
  position : node positionName = Graph.positionId
  distinct : ∀ {a b}, doc.Needed a → doc.Needed b → node a = node b → a = b
  own : ∀ {a}, doc.Needed a → ∃ spec op, ∃ ws : List Wire, doc.Specifies a spec op ∧
    old.size < node a ∧ g.get? (node a) = some ⟨node a, op, ws.map some⟩ ∧
    (∀ w ∈ ws, w.source < node a) ∧ Forall₂ (Draws doc g node) spec.inputs (ws.map Wire.source)
  only : ∀ k, old.size < k → k ≤ g.size → ∃ a, doc.Needed a ∧
    (node a = k ∨ ∃ n w, g.get? (node a) = some n ∧ some w ∈ n.inputs ∧ w.source = k)

section
variable {doc : Document} {old g : Graph} {table : List (String × NodeId)} {a : String}

/-- the nodes of names by a table -/
def nodeIn (table : List (String × NodeId)) (a : String) : NodeId :=
  if a = positionName then Graph.positionId else (table.lookup a).getD 0

theorem nodeIn_eq {x : NodeId} (node : a ≠ positionName) (known : table.lookup a = some x) :
    nodeIn table a = x := by
  unfold nodeIn
  rw [if_neg node, known]
  rfl

theorem Needed.ne_position (h : doc.Needed a) : a ≠ positionName := by
  cases h with
  | output _ other => exact other
  | input _ refers => exact refers.1

theorem Laid.lookup_of_mem (h : Laid doc old g table) :
    ∀ p ∈ table, table.lookup p.1 = some p.2 := by
  induction h with
  | nil => exact nofun
  | cons _ _ _ new _ _ _ _ _ _ ih =>
    refine forall_mem_cons.2 ⟨lookup_cons_self, fun p member => ?_⟩
    exact lookup_cons_of_new new (ih p member)

theorem Feeds.name {x : NodeId} {b : String} (h : Feeds old g table (.reference b) x)
    (node : b ≠ positionName) : table.lookup b = some x := by
  unfold Feeds at h
  dsimp only at h
  rwa [if_neg node] at h

theorem Feeds.nodeIn {name : String} {x : NodeId} (h : Feeds old g table (.reference name) x) :
    x = nodeIn table name := by
  by_cases position : name = positionName
  · unfold Feeds at h
    dsimp only at h
    rw [if_pos position] at h
    rw [h, position]
    exact (if_pos rfl).symm
  · exact (nodeIn_eq position (h.name position)).symm

theorem Laid.known (h : Laid doc old g table)
    (outputs : ∀ t name, doc.outputs.lookup t = some name → name ≠ positionName →
      ∃ x, table.lookup name = some x) (needed : doc.Needed a) : ∃ x, table.lookup a = some x := by
  induction needed with
  | output bound other => exact outputs _ _ bound other
  | @input a b _ refers ih =>
    obtain ⟨x, known⟩ := ih
    obtain ⟨spec, op, ws, settled⟩ := h.settled known
    obtain ⟨node, spec', listed, member⟩ := refers
    cases listed.symm.trans settled.specified.listed
    obtain ⟨y, -, own⟩ := exists_of_forall₂ settled.feeds member
    exact ⟨y, own.name node⟩

theorem drawn_of_laid (h : Laid doc old g table)
    (known : ∀ {a}, doc.Needed a → ∃ x, table.lookup a = some x)
    (covers : ∀ k, old.size < k → k ≤ g.size → Covered ⟨g, table⟩ k) :
    doc.Drawn old g (nodeIn table) where
  position := if_pos rfl
  distinct {a b} needed needed' same := by
    obtain ⟨x, left⟩ := known needed
    obtain ⟨y, right⟩ := known needed'
    rw [nodeIn_eq needed.ne_position left, nodeIn_eq needed'.ne_position right] at same
    exact h.inj left (same ▸ right)
  own {a} needed := by
    obtain ⟨x, there⟩ := known needed
    obtain ⟨spec, op, ws, settled⟩ := h.settled there
    rw [nodeIn_eq needed.ne_position there]
    refine ⟨spec, op, ws, settled.specified, settled.behind, settled.found, settled.lower, ?_⟩
    refine settled.feeds.imp fun i y own => ?_
    cases i with
    | reference b => exact own.nodeIn
    | literal line s =>
      obtain ⟨v, value, found, -, apart⟩ := own
      refine ⟨v, value, found, fun b needed' => ?_⟩
      obtain ⟨z, there'⟩ := known needed'
      rw [nodeIn_eq needed'.ne_position there']
      exact apart _ (mem_of_lookup there')
    | unreadable line => exact own
  only k behind inside := by
    obtain ⟨p, member, own⟩ := covers k behind inside
    have there := h.lookup_of_mem p member
    obtain ⟨spec, op, ws, settled⟩ := h.settled there
    refine ⟨p.1, settled.needed, ?_⟩
    rw [nodeIn_eq settled.other there]
    exact own

/-! ### references go to lower nodes -/

variable {node : String → NodeId}

theorem Drawn.lower {b : String} (h : doc.Drawn old g node) (needed : doc.Needed a)
    (refers : doc.Refers a b) : node b < node a := by
  obtain ⟨spec, op, ws, specified, -, -, lower, draws⟩ := h.own needed
  obtain ⟨-, spec', listed, member⟩ := refers
  cases listed.symm.trans specified.listed
  obtain ⟨x, there, own⟩ := exists_of_forall₂ draws member
  obtain ⟨w, operand, rfl⟩ := mem_map.1 there
  have source : w.source = node b := own
  rw [← source]
  exact lower w operand

theorem Drawn.resolvable (h : doc.Drawn old g node) : doc.Resolvable where
  specified needed := by
    obtain ⟨spec, op, ws, specified, -⟩ := h.own needed
    exact ⟨spec, op, specified⟩
  acyclic {a} needed loop := by
    have below : ∀ {b}, Relation.TransGen doc.Refers a b → doc.Needed b ∧ node b < node a := by
      intro b leads
      induction leads with
      | single refers => exact ⟨.input needed refers, h.lower needed refers⟩
      | tail _ refers ih => exact ⟨.input ih.1 refers, (h.lower ih.1 refers).trans ih.2⟩
    exact lt_irrefl _ (below loop).2

/-! ### outputs -/

theorem mem_targets (doc : Document) (t : String) :
    t ∈ doc.targets ↔ t ∈ doc.outputs.map (·.1) := by
  unfold targets
  dsimp only
  rw [mem_append, mem_mergeSort, mem_filter, mem_filter, contains_iff_mem]
  constructor
  · rintro (⟨-, there⟩ | ⟨there, -⟩) <;> exact there
  · intro there
    by_cases known : t ∈ wellKnown
    · exact .inl ⟨known, there⟩
    · exact .inr ⟨there, by simp [known]⟩

theorem pairwise_mergeSort_texts (l : List String) :
    (l.mergeSort fun a b => decide (a ≤ b)).Pairwise (· ≤ ·) := by
  have sorted : (l.mergeSort fun a b => decide (a ≤ b)).Pairwise fun a b =>
      decide (a ≤ b) = true := by
    refine pairwise_mergeSort (fun a b c => ?_) (fun a b => ?_) l
    · simpa using String.le_trans
    · simpa using String.le_total a b
  exact sorted.imp of_decide_eq_true

theorem bound_targets (doc : Document) :
    ∀ t ∈ doc.targets, ∃ name, doc.outputs.lookup t = some name := by
  intro t member
  exact Option.isSome_iff_exists.1 (isSome_lookup.2 ((mem_targets doc t).1 member))

theorem zipWith_roots {targets : List String}
    (bound : ∀ t ∈ targets, ∃ name, doc.outputs.lookup t = some name)
    (feeds : Forall₂ (Feeds old g table)
      (targets.map fun t => .reference ((doc.outputs.lookup t).getD "")) xs) :
    List.zipWith (fun t x => (⟨t, some x⟩ : Root)) targets xs =
      targets.map fun t => ⟨t, (doc.outputs.lookup t).map (nodeIn table)⟩ := by
  induction targets generalizing xs with
  | nil => rfl
  | cons t targets ih =>
    cases feeds with
    | cons own rest =>
      obtain ⟨name, named⟩ := bound t (.head _)
      have own := own.nodeIn
      rw [named] at own
      rw [zipWith_cons_cons, map_cons,
        ih (fun t member => bound t (.tail _ member)) rest, named, own]
      rfl

theorem roots_drawn (built : old.Built) {roots : List Root} (h : (doc.roots old).1 = .ok roots) :
    ∃ node, doc.Drawn old (doc.roots old).2 node ∧
      roots = doc.targets.map fun t => ⟨t, (doc.outputs.lookup t).map node⟩ := by
  have start : Sketch doc old ⟨old, []⟩ := ⟨le_rfl, get?_positionId built, .nil⟩
  obtain ⟨b, ran⟩ : ∃ b, outcome (doc.targets.mapM (buildRoot doc)) ⟨old, []⟩ = (.ok roots, b) :=
    ⟨_, Prod.ext h rfl⟩
  have graph : (doc.roots old).2 = b.graph :=
    congrArg (fun p : Except DocumentError (List Root) × Builder => p.2.graph) ran
  obtain ⟨xs, result, rfl⟩ := laid_roots ran doc.bound_targets start
  have laid := result.sketch.laid
  have outputs : ∀ t name, doc.outputs.lookup t = some name → name ≠ positionName →
      ∃ x, b.built.lookup name = some x := by
    intro t name named node
    have member : t ∈ doc.targets :=
      (mem_targets doc t).2 (isSome_lookup.1 (Option.isSome_iff_exists.2 ⟨name, named⟩))
    obtain ⟨x, -, own⟩ := exists_of_forall₂ result.feeds (mem_map_of_mem member)
    rw [named] at own
    exact ⟨x, own.name node⟩
  refine ⟨nodeIn b.built, ?_, zipWith_roots doc.bound_targets result.feeds⟩
  rw [graph]
  refine drawn_of_laid laid (laid.known outputs) fun k behind inside => ?_
  -- the nodes of outputs are in the table as well
  rcases result.covers k behind inside with output | covered
  · obtain ⟨i, member, own⟩ :=
      exists_of_forall₂ (Forall₂.flip (R := flip (Feeds old b.graph b.built)) result.feeds) output
    obtain ⟨t, -, rfl⟩ := mem_map.1 member
    by_cases position : (doc.outputs.lookup t).getD "" = positionName
    · have first : k = Graph.positionId := by
        have own := own.nodeIn
        rw [own, position]
        exact if_pos rfl
      rw [first] at behind
      exact absurd behind (Nat.not_lt_of_le built.size_pos)
    · exact ⟨(_, k), mem_of_lookup (own.name position), .inl rfl⟩
  · exact covered

end

end Terrain.Document
