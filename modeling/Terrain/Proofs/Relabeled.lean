import Terrain.Proofs.Drawn
import Terrain.Proofs.Outputs

/-!
# The names of nodes do not matter

A document under other names, with its tables in another order and with nodes that nothing needs,
gives the same program.  It is resolved step by step as before: the path and the table have other
names in them, and the graph is the same.

* `Relabels`             a document under other names;
* `Renames`              what resolving sees of it;
* `resolve_relabeled`    names are resolved to the same nodes;
* `values_relabeled`     parameters have the same values;
* `compile_relabeled`    the program is the same.
-/

namespace Terrain.Document

open List

variable {visit visit' : String → BuildM NodeId}

def Input.relabeled (ρ : String → String) : Input → Input
  | .reference name => .reference (ρ name)
  | i => i

def NodeSpec.relabeled (ρ : String → String) (spec : NodeSpec) : NodeSpec :=
  { spec with inputs := spec.inputs.map (Input.relabeled ρ) }

/-- a document under other names, its tables in any order, with nodes added.  Its tables are maps,
so no two of its nodes get one name. -/
structure Relabels (ρ : String → String) (doc doc' : Document) : Prop where
  nodes : ∃ more, doc'.nodes.Perm
    (doc.nodes.map (fun p => (ρ p.1, NodeSpec.relabeled ρ p.2)) ++ more)
  outputs : doc'.outputs.Perm (doc.outputs.map fun p => (p.1, ρ p.2))
  parameters : doc'.parameters.Perm doc.parameters
  distinctNodes : (doc'.nodes.map Prod.fst).Nodup
  distinctOutputs : (doc'.outputs.map Prod.fst).Nodup
  distinctParameters : (doc'.parameters.map Prod.fst).Nodup
  position : ρ positionName = positionName
  other : ∀ p ∈ doc.nodes, ρ p.1 = positionName → p.1 = positionName

/-- the names that outputs need are still apart, and their nodes are still there -/
structure Renames (ρ : String → String) (doc doc' : Document) : Prop where
  position : ρ positionName = positionName
  other : ∀ {a}, doc.Needed a → ρ a ≠ positionName
  inj : ∀ {a b}, doc.Needed a → doc.Needed b → ρ a = ρ b → a = b
  nodes : ∀ {a spec}, doc.Needed a → doc.nodes.lookup a = some spec →
    doc'.nodes.lookup (ρ a) = some (spec.relabeled ρ)
  length : doc.nodes.length ≤ doc'.nodes.length

/-! ## tables in another order -/

theorem targets_of_perm {doc doc' : Document}
    (perm : (doc'.outputs.map (·.1)).Perm (doc.outputs.map (·.1))) :
    doc'.targets = doc.targets := by
  unfold targets
  dsimp only
  have known : wellKnown.filter (doc'.outputs.map (·.1)).contains =
      wellKnown.filter (doc.outputs.map (·.1)).contains :=
    filter_congr fun t _ => by
      rw [Bool.eq_iff_iff, contains_iff_mem, contains_iff_mem, perm.mem_iff]
  rw [known]
  refine congrArg _ (Perm.eq_of_pairwise (fun a b _ _ => String.le_antisymm)
    (pairwise_mergeSort_texts _) (pairwise_mergeSort_texts _) ?_)
  exact (mergeSort_perm _ _).trans ((perm.filter _).trans (mergeSort_perm _ _).symm)

/-! ## recipes -/

theorem make_inputs {op : String} {recipe : Recipe} (known : recipe? op = some recipe)
    (spec : NodeSpec) (inputs : List Input) :
    recipe.make { spec with inputs } = recipe.make spec := by
  have all : ∀ p ∈ recipes, ∀ (spec : NodeSpec) (inputs : List Input),
      p.2.make { spec with inputs } = p.2.make spec := by
    unfold recipes
    simp only [forall_mem_append, forall_mem_map, forall_mem_cons, not_mem_nil,
      false_implies, implies_true, and_true]
    repeat' apply And.intro
    all_goals exact fun _ _ => rfl
  exact all _ (mem_of_lookup known) spec inputs

/-! ## resolving -/

/-- the same graph, under other names -/
def Builder.relabeled (ρ : String → String) (b : Builder) : Builder :=
  ⟨b.graph, b.built.map fun p => (ρ p.1, p.2)⟩

section
variable {ρ : String → String} {doc doc' : Document} {old : Graph} {b b' : Builder}
  {path : List String}

theorem Renames.lookup_built (h : Renames ρ doc doc') {name : String} (needed : doc.Needed name)
    {table : List (String × NodeId)} (own : ∀ p ∈ table, doc.Needed p.1) :
    (table.map fun p => (ρ p.1, p.2)).lookup (ρ name) = table.lookup name := by
  rw [lookup_map_rows (fun p member same => h.inj needed (own p member) same) fun x => x,
    Option.map_id']

theorem Laid.needed {g : Graph} {table : List (String × NodeId)} (h : Laid doc old g table) :
    ∀ p ∈ table, doc.Needed p.1 := by
  intro p member
  obtain ⟨spec, op, ws, settled⟩ := h.settled (h.lookup_of_mem p member)
  exact settled.needed

/-- names are resolved to the nodes that they had under their old names -/
def Mimics (ρ : String → String) (doc : Document) (old : Graph) (path : List String)
    (visit visit' : String → BuildM NodeId) : Prop :=
  Resolves doc old path visit ∧
  ∀ {name b x b'}, outcome (visit name) b = (.ok x, b') → (name ≠ positionName → doc.Needed name) →
    Sketch doc old b → outcome (visit' (ρ name)) (b.relabeled ρ) = (.ok x, b'.relabeled ρ)

theorem buildInput_relabeled (mimics : Mimics ρ doc old path visit visit') {owner owner' : String}
    {i : Input} {x : NodeId} (h : outcome (buildInput visit owner i) b = (.ok x, b'))
    (needed : ∀ {name}, i = .reference name → name ≠ positionName → doc.Needed name)
    (sketch : Sketch doc old b) :
    outcome (buildInput visit' owner' (i.relabeled ρ)) (b.relabeled ρ) =
      (.ok x, b'.relabeled ρ) := by
  cases i with
  | reference name => exact mimics.2 h (needed rfl) sketch
  | literal line s =>
    unfold Input.relabeled buildInput at *
    dsimp only at h ⊢
    split at h
    case h_1 v value =>
      rw [outcome_build] at h
      cases h
      rw [outcome_build]
      rfl
    case h_2 => cases h
  | unreadable line => cases h

theorem inputs_relabeled (mimics : Mimics ρ doc old path visit visit')
    {owner owner' : String} {is : List Input} {xs : List NodeId}
    (h : outcome (is.mapM (buildInput visit owner)) b = (.ok xs, b'))
    (needed : ∀ {name}, .reference name ∈ is → name ≠ positionName → doc.Needed name)
    (sketch : Sketch doc old b) :
    outcome ((is.map (Input.relabeled ρ)).mapM (buildInput visit' owner')) (b.relabeled ρ) =
      (.ok xs, b'.relabeled ρ) := by
  induction is generalizing b xs with
  | nil =>
    cases h
    rfl
  | cons i is ih =>
    obtain ⟨x, xs, d, head, tail, rfl⟩ := outcome_mapM_cons.1 h
    have first {name : String} (same : i = .reference name) :
        name ≠ positionName → doc.Needed name := needed (by rw [← same]; exact .head _)
    have next := (laid_buildInput mimics.1 head first sketch).sketch
    have others := ih tail (fun member => needed (.tail _ member)) next
    exact outcome_mapM_cons.2 ⟨x, xs, _, buildInput_relabeled mimics head first sketch, others, rfl⟩

theorem buildNode_relabeled (h : Renames ρ doc doc') {name : String}
    (mimics : Mimics ρ doc old (path ++ [name]) visit visit') {x : NodeId} (own : doc.Needed name)
    (built : outcome (doc.buildNode visit path name) b = (.ok x, b')) (sketch : Sketch doc old b)
    (path' : List String) :
    outcome (doc'.buildNode visit' path' (ρ name)) (b.relabeled ρ) = (.ok x, b'.relabeled ρ) := by
  obtain ⟨spec, recipe, op, ids, d, listed, known, count, made, inputs, rfl, rfl⟩ :=
    buildNode_ok built
  have inputs' : outcome ((spec.inputs.map (Input.relabeled ρ)).mapM (buildInput visit' (ρ name)))
      (b.relabeled ρ) = (.ok ids, d.relabeled ρ) :=
    inputs_relabeled mimics inputs (fun input node => .input own ⟨node, spec, listed, input⟩) sketch
  unfold buildNode
  rw [h.nodes own listed]
  dsimp only
  rw [show recipe? (spec.relabeled ρ).op = some recipe from known]
  dsimp only
  rw [if_neg (by
    rw [show (spec.relabeled ρ).inputs.length = spec.inputs.length from length_map _]
    exact fun differ => differ count)]
  refine outcome_bind_ok.2 ⟨ids, d.relabeled ρ, inputs', ?_⟩
  rw [show recipe.make (spec.relabeled ρ) = .ok op from (make_inputs known spec _).trans made]
  exact outcome_bind_ok.2 ⟨_, _, outcome_build _ _ _, rfl⟩

theorem resolve_relabeled (h : Renames ρ doc doc') (fuel fuel' : Nat) (deep : fuel ≤ fuel')
    (path : List String) (leads : ∀ a ∈ path, doc.Needed a) :
    Mimics ρ doc old path (doc.resolve fuel path) (doc'.resolve fuel' (path.map ρ)) := by
  induction fuel generalizing fuel' path with
  | zero => exact ⟨resolve_laid 0 path, fun failed => by cases failed⟩
  | succ fuel ih =>
    refine ⟨resolve_laid _ path, fun {name b x b'} resolved needed sketch => ?_⟩
    obtain ⟨fuel', rfl⟩ : ∃ k, fuel' = k + 1 := ⟨fuel' - 1, by omega⟩
    rw [resolve_succ] at resolved ⊢
    by_cases position : name = positionName
    · rw [if_pos position] at resolved
      rw [if_pos (position ▸ h.position)]
      cases resolved
      rfl
    have own := needed position
    rw [if_neg position] at resolved
    rw [if_neg (h.other own)]
    by_cases loop : path.contains name = true
    · rw [if_pos loop] at resolved
      cases resolved
    rw [if_neg loop] at resolved
    have new : ¬ (path.map ρ).contains (ρ name) = true := by
      intro member
      obtain ⟨a, there, same⟩ := mem_map.1 (contains_iff_mem.1 member)
      exact loop (contains_iff_mem.2 (h.inj (leads a there) own same ▸ there))
    rw [if_neg new]
    obtain ⟨_, _, same, resolved⟩ := outcome_bind_ok.1 resolved
    cases same
    refine outcome_bind_ok.2 ⟨_, _, rfl, ?_⟩
    rw [show (b.relabeled ρ).built.lookup (ρ name) = b.built.lookup name from
      h.lookup_built own sketch.laid.needed]
    cases known : b.built.lookup name with
    | some id =>
      rw [known] at resolved
      cases resolved
      rfl
    | none =>
      rw [known] at resolved
      refine buildNode_relabeled h ?_ own resolved sketch _
      rw [show path.map ρ ++ [ρ name] = (path ++ [name]).map ρ by rw [map_append]; rfl]
      refine ih fuel' (Nat.le_of_succ_le_succ deep) (path ++ [name]) ?_
      exact forall_mem_append.2 ⟨leads, forall_mem_singleton.2 own⟩

theorem roots_renamed (h : Renames ρ doc doc') {targets : List String} {roots : List Root}
    (bound : ∀ t ∈ targets, ∃ name, doc.outputs.lookup t = some name)
    (outputs : ∀ t, doc'.outputs.lookup t = (doc.outputs.lookup t).map ρ)
    (rooted : outcome (targets.mapM (buildRoot doc)) b = (.ok roots, b'))
    (sketch : Sketch doc old b) :
    outcome (targets.mapM (buildRoot doc')) (b.relabeled ρ) = (.ok roots, b'.relabeled ρ) := by
  induction targets generalizing b roots with
  | nil =>
    cases rooted
    rfl
  | cons t targets ih =>
    obtain ⟨r, rs, d, head, tail, rfl⟩ := outcome_mapM_cons.1 rooted
    obtain ⟨x, e, resolved, made⟩ := outcome_bind_ok.1 head
    cases made
    obtain ⟨name, own⟩ := bound t (.head _)
    have deep : doc.nodes.length + 1 ≤ doc'.nodes.length + 1 := Nat.succ_le_succ h.length
    obtain ⟨lays, mimics⟩ : Mimics ρ doc old [] (doc.resolve _ []) (doc'.resolve _ []) :=
      resolve_relabeled h _ _ deep [] nofun
    rw [own] at resolved
    have next := lays resolved (.output own) sketch
    have root : outcome (buildRoot doc' t) (b.relabeled ρ) = (.ok ⟨t, some x⟩, d.relabeled ρ) := by
      refine outcome_bind_ok.2 ⟨x, _, ?_, rfl⟩
      rw [outputs, own]
      exact mimics resolved (.output own) sketch
    have others := ih (fun t member => bound t (.tail _ member)) tail next.sketch
    exact outcome_mapM_cons.2 ⟨_, rs, _, root, others, rfl⟩

/-! ## values -/

section
variable {ε α β : Type} {f : α → Except ε β}

theorem mapM_perm {xs xs' : List α} (perm : xs'.Perm xs) {ys : List β} (h : xs.mapM f = .ok ys) :
    ∃ ys', xs'.mapM f = .ok ys' ∧ ys'.Perm ys := by
  induction perm generalizing ys with
  | nil => exact ⟨ys, h, .refl _⟩
  | cons x _ ih =>
    obtain ⟨y, rest, head, tail, rfl⟩ := mapM_cons_ok.1 h
    obtain ⟨rest', tail', perm⟩ := ih tail
    exact ⟨y :: rest', mapM_cons_ok.2 ⟨y, rest', head, tail', rfl⟩, perm.cons y⟩
  | swap x x' xs =>
    obtain ⟨y, _, head, tail, rfl⟩ := mapM_cons_ok.1 h
    obtain ⟨y', rest, head', tail', rfl⟩ := mapM_cons_ok.1 tail
    refine ⟨y' :: y :: rest, ?_, .swap ..⟩
    exact mapM_cons_ok.2 ⟨y', _, head', mapM_cons_ok.2 ⟨y, rest, head, tail', rfl⟩, rfl⟩
  | trans _ _ ih ih' =>
    obtain ⟨zs, through, perm⟩ := ih' h
    obtain ⟨ys', made, perm'⟩ := ih through
    exact ⟨ys', made, perm'.trans perm⟩

end

theorem keys_values {doc : Document} {values : Bindings} (h : doc.values = .ok values) :
    values.map Prod.fst = doc.parameters.map Prod.fst := by
  unfold Document.values at h
  generalize doc.parameters = rows at h
  induction rows generalizing values with
  | nil =>
    cases h
    rfl
  | cons row rows ih =>
    obtain ⟨y, rest, head, tail, rfl⟩ := mapM_cons_ok.1 h
    obtain ⟨name, s⟩ := row
    dsimp only at head
    split at head
    · cases head
      exact congrArg (name :: ·) (ih tail)
    · cases head

theorem values_relabeled (perm : doc'.parameters.Perm doc.parameters)
    (distinct : (doc'.parameters.map Prod.fst).Nodup) {values : Bindings}
    (h : doc.values = .ok values) :
    ∃ values', doc'.values = .ok values' ∧ ∀ name, values'.lookup name = values.lookup name := by
  obtain ⟨values', made, same⟩ := mapM_perm perm h
  exact ⟨values', made, lookup_perm same (keys_values made ▸ distinct)⟩

end

/-! ## documents -/

section
variable {ρ : String → String} {doc doc' : Document}

section
variable (h : Relabels ρ doc doc')
include h

theorem Relabels.renames (listed : ∀ {a}, doc.Needed a → ∃ spec, doc.nodes.lookup a = some spec) :
    Renames ρ doc doc' := by
  obtain ⟨more, perm⟩ := h.nodes
  have member {a : String} {spec : NodeSpec} (known : doc.nodes.lookup a = some spec) :
      (ρ a, spec.relabeled ρ) ∈ doc'.nodes :=
    perm.mem_iff.2 (mem_append_left _ (mem_map.2 ⟨(a, spec), mem_of_lookup known, rfl⟩))
  have distinct : (doc.nodes.map fun p => ρ p.1).Nodup := by
    have all := (perm.map Prod.fst).nodup_iff.1 h.distinctNodes
    rw [map_append, map_map] at all
    exact (nodup_append.1 all).1
  refine ⟨h.position, fun {a} needed is => ?_, fun {a b} left right same => ?_,
    fun {a spec} _ known => ?_, ?_⟩
  · obtain ⟨spec, known⟩ := listed needed
    exact needed.ne_position (h.other _ (mem_of_lookup known) is)
  · obtain ⟨spec, known⟩ := listed left
    obtain ⟨spec', known'⟩ := listed right
    exact congrArg Prod.fst (inj_on_of_nodup_map distinct (mem_of_lookup known)
      (mem_of_lookup known') same)
  · exact lookup_of_mem h.distinctNodes (member known)
  · rw [perm.length_eq, length_append, length_map]
    exact Nat.le_add_right _ _

theorem Relabels.lookup_outputs (t : String) :
    doc'.outputs.lookup t = (doc.outputs.lookup t).map ρ := by
  rw [lookup_perm h.outputs h.distinctOutputs]
  exact lookup_map_rows (f := fun t => t) (fun _ _ same => same) ρ

theorem Relabels.targets : doc'.targets = doc.targets := by
  refine targets_of_perm ((h.outputs.map (·.1)).trans ?_)
  rw [map_map]
  exact .refl _

theorem Relabels.roots {g : Graph} (built : g.Built) {roots : List Root}
    (rooted : (doc.roots g).1 = .ok roots) : doc'.roots g = (.ok roots, (doc.roots g).2) := by
  obtain ⟨node, drawn, -⟩ := roots_drawn built rooted
  have renames := h.renames fun needed => by
    obtain ⟨spec, op, specified⟩ := drawn.resolvable.specified needed
    exact ⟨spec, specified.listed⟩
  have start : Sketch doc g ⟨g, []⟩ := ⟨le_rfl, get?_positionId built, .nil⟩
  obtain ⟨b, ran⟩ : ∃ b, outcome (doc.targets.mapM (buildRoot doc)) ⟨g, []⟩ = (.ok roots, b) :=
    ⟨_, Prod.ext rooted rfl⟩
  have graph : (doc.roots g).2 = b.graph :=
    congrArg (fun p : Except DocumentError (List Root) × Builder => p.2.graph) ran
  have ran' := roots_renamed renames doc.bound_targets h.lookup_outputs ran start
  rw [← h.targets] at ran'
  rw [graph]
  exact congrArg (fun p : Except DocumentError (List Root) × Builder => (p.1, p.2.graph)) ran'

end

/-- **Names of nodes do not matter.**  A document that compiles gives the same program under other
names of its nodes, with its tables in any order, and with nodes added that nothing needs. -/
theorem compile_relabeled (h : Relabels ρ doc doc') {g g' : Graph} (built : g.Built)
    (built' : g'.Built)
    {o : Compile.Options} {p : Program} (compiled : (doc.compile g o).1 = .ok p) :
    (doc'.compile g' o).1 = .ok p := by
  obtain ⟨values, valued, roots, rooted, given⟩ := compile_ok_iff.1 compiled
  obtain ⟨values', valued', same⟩ := values_relabeled h.parameters h.distinctParameters valued
  have here : doc'.Gives g { o with bindings := o.bindings ++ values } p := by
    refine ⟨roots, ?_, ?_⟩
    · rw [h.roots built rooted]
    · rwa [h.roots built rooted]
  have everywhere : doc'.Gives g { o with bindings := o.bindings ++ values } p ↔
      doc'.Gives g' { o with bindings := o.bindings ++ values' } p := by
    refine gives_iff built built' (fun name => ?_) ?_ ?_
    · rw [List.lookup_append, List.lookup_append, same]
    · rfl
    · exact Iff.rfl
  exact compile_ok_iff.2 ⟨values', valued', everywhere.1 here⟩

end

/-- a sum of two nodes, one of them used twice, and a parameter -/
def namedDocument : Document where
  name := "hill"
  parameters := [("height", .integer 2)]
  nodes := [("ground", { NodeSpec.empty with op := "length", inputs := [.reference "position"] }),
    ("height", { NodeSpec.empty with op := "inject", name := "height", shape := "float" }),
    ("hill",
      { NodeSpec.empty with op := "add", inputs := [.reference "ground", .reference "height"] }),
    ("twice",
      { NodeSpec.empty with op := "mul", inputs := [.reference "hill", .reference "hill"] })]
  outputs := [("density", "twice"), ("color", "position")]

/-- the names of two nodes exchanged, and another that is longer -/
def exchange (name : String) : String :=
  if name = "ground" then "hill" else if name = "hill" then "ground"
  else if name = "twice" then "twice as high" else name

/-- a node that needs itself, one of no operation, and one with the name of the world position -/
def looseNodes : List (String × NodeSpec) :=
  [("loose", { NodeSpec.empty with op := "neg", inputs := [.reference "loose"] }),
    ("twice", { NodeSpec.empty with op := "melt", inputs := [.unreadable 3] }),
    ("position", NodeSpec.empty)]

/-- the same document under other names and in another order, behind loose nodes -/
def exchangedDocument : Document where
  name := "valley"
  parameters := [("height", .integer 2)]
  nodes := looseNodes ++
    [("twice as high",
      { NodeSpec.empty with op := "mul", inputs := [.reference "ground", .reference "ground"] }),
    ("ground",
      { NodeSpec.empty with op := "add", inputs := [.reference "hill", .reference "height"] }),
    ("height", { NodeSpec.empty with op := "inject", name := "height", shape := "float" }),
    ("hill", { NodeSpec.empty with op := "length", inputs := [.reference "position"] })]
  outputs := [("color", "position"), ("density", "twice as high")]

theorem relabels_exchanged : Relabels exchange namedDocument exchangedDocument where
  nodes := by
    have same : exchangedDocument.nodes = looseNodes ++
        (namedDocument.nodes.map fun p =>
          (exchange p.1, NodeSpec.relabeled exchange p.2)).reverse := rfl
    rw [same]
    exact ⟨looseNodes, perm_append_comm.trans ((reverse_perm _).append_right _)⟩
  outputs := .swap ..
  parameters := .refl _
  distinctNodes := by decide
  distinctOutputs := by decide
  distinctParameters := by decide
  position := by decide
  other := by decide

/-- both are the same program, also on a graph that has other nodes already -/
theorem compile_relabeled_exchanged : ∃ p, (namedDocument.compile .initial default).1 = .ok p ∧
    (exchangedDocument.compile lostOperands default).1 = .ok p := by
  have compiles : (namedDocument.compile .initial default).1.isOk = true := by decide +kernel
  cases made : (namedDocument.compile .initial default).1 with
  | error e =>
    rw [made] at compiles
    cases compiles
  | ok p => exact ⟨p, rfl, compile_relabeled relabels_exchanged .initial built_lostOperands made⟩

end Terrain.Document
