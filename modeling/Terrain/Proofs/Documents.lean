import Terrain.Document.Compile
import Terrain.Proofs.Safety

/-!
# Graphs that documents make

A document adds nodes to a graph and changes none that is there.  What it adds takes its operands
from what it added before, or is the world position, and each operation gets as many operands as
it takes.

* `Recipe.Sound`    what a recipe makes fits the number of its inputs;
* `Added`           a node of the document: the position, or a node that was not there before;
* `Raised`          the invariant of building, over a property that every made operation has;
* `Raises`          a step keeps it, also when it fails;
* `roots_raised`    so the roots of a document are nodes of a built graph;
* `compile_never_faults`  and compiling it does not break down, as compiling any graph does not.
-/

namespace Terrain.Document

open List

variable {g : Graph} {e : DocumentError} {doc : Document}

/-! ## recipes -/

/-- neither a stand-in for a literal nor a reference -/
def IsResolved : Op → Bool
  | .unsupported _ _ | .ref _ _ => false
  | _ => true

/-- what a recipe makes takes as many operands as the recipe has inputs and stands for no other
node, and a parameter that it declares has a shape that can be written down or that of
its fallback -/
structure Recipe.Sound (r : Recipe) : Prop where
  takes : ∀ {spec op}, r.make spec = .ok op → op.Takes r.inputs
  other : ∀ {spec op}, r.make spec = .ok op → op ≠ .position
  resolved : ∀ {spec op}, r.make spec = .ok op → IsResolved op = true
  declared : ∀ {spec op name s fallback}, r.make spec = .ok op → op = .inject name s fallback →
    s.isDefined = true ∨ ∃ v, spec.value.toValue = .ok v ∧ v.shape = s

/-- neither the world position nor anything with a name -/
def IsAnonymous : Op → Bool
  | .position | .inject _ _ _ | .unsupported _ _ | .ref _ _ => false
  | _ => true

theorem sound_of_form {α : Type} {r : Recipe} (form : α → Op)
    (made : ∀ {spec op}, r.make spec = .ok op → ∃ a, op = form a)
    (takes : ∀ a, (form a).Takes r.inputs) (anonymous : ∀ a, IsAnonymous (form a) = true) :
    r.Sound where
  takes h := by
    obtain ⟨a, rfl⟩ := made h
    exact takes a
  other h is := by
    obtain ⟨a, rfl⟩ := made h
    have := anonymous a
    rw [is] at this
    cases this
  resolved h := by
    obtain ⟨a, rfl⟩ := made h
    have := anonymous a
    generalize form a = op at this
    cases op with
    | unsupported | ref => cases this
    | _ => rfl
  declared h is := by
    obtain ⟨a, rfl⟩ := made h
    have := anonymous a
    rw [is] at this
    cases this

theorem sound_fixed {k : Nat} {op : Op} (takes : op.Takes k) (anonymous : IsAnonymous op = true) :
    (Recipe.fixed k op).Sound :=
  sound_of_form (fun _ : Unit => op) (fun h => ⟨(), (Except.ok.inj h).symm⟩) (fun _ => takes)
    (fun _ => anonymous)

theorem sound_read {α : Type} {k : Nat} {read : NodeSpec → Except AttributeFault α}
    {f : NodeSpec → α → Op} (takes : ∀ spec a, (f spec a).Takes k)
    (anonymous : ∀ spec a, IsAnonymous (f spec a) = true) :
    (Recipe.mk k fun spec => do return f spec (← read spec)).Sound := by
  refine sound_of_form (fun p : NodeSpec × α => f p.1 p.2) ?_ (fun _ => takes _ _)
    (fun _ => anonymous _ _)
  intro spec op h
  obtain ⟨a, -, same⟩ := bind_ok h
  exact ⟨(spec, a), (Except.ok.inj same).symm⟩

theorem sound_swizzle : swizzle.Sound := by
  refine sound_of_form Op.swizzle ?_ (fun _ => rfl) (fun _ => rfl)
  intro spec op h
  unfold swizzle at h
  dsimp only at h
  split at h
  · cases h
  · exact ⟨spec.mask, (Except.ok.inj h).symm⟩

theorem sound_cast : cast.Sound := sound_read (fun _ _ => rfl) (fun _ _ => rfl)

theorem sound_broadcast : broadcast.Sound := sound_read (fun _ _ => rfl) (fun _ _ => rfl)

theorem sound_noise : noise.Sound := sound_read (fun _ _ => rfl) (fun _ _ => rfl)

theorem sound_fractal : fractal.Sound := sound_read (fun _ _ => rfl) (fun _ _ => rfl)

theorem sound_distance : distance.Sound := sound_read (fun _ _ => rfl) (fun _ _ => rfl)

theorem sound_cellular : cellular.Sound := by
  refine sound_of_form (fun p : Metric × CellFeature => .cellular p.1 p.2) ?_ (fun _ => rfl)
    (fun _ => rfl)
  intro spec op h
  obtain ⟨metric, -, h⟩ := bind_ok h
  obtain ⟨feature, -, h⟩ := bind_ok h
  exact ⟨(metric, feature), (Except.ok.inj h).symm⟩

theorem sound_cache : cache.Sound :=
  sound_of_form Op.cache (fun h => ⟨_, (Except.ok.inj h).symm⟩) (fun _ => rfl) (fun _ => rfl)

theorem sound_const : const.Sound := by
  refine sound_of_form Op.constant ?_ (fun _ => rfl) (fun _ => rfl)
  intro spec op h
  obtain ⟨v, -, h⟩ := bind_ok h
  split at h
  · exact ⟨v, (Except.ok.inj h).symm⟩
  · obtain ⟨s, -, h⟩ := bind_ok h
    obtain ⟨w, -, h⟩ := bind_ok h
    exact ⟨w, (Except.ok.inj h).symm⟩

theorem shapeOf_isDefined {text : String} {s : Shape} (h : shapeOf text = .ok s) :
    s.isDefined = true := by
  unfold shapeOf named at h
  split at h
  case h_2 => cases h
  case h_1 s' found =>
    cases h
    have member := mem_of_find?_eq_some found
    simp only [mem_cons, not_mem_nil, or_false] at member
    rcases member with rfl | rfl | rfl | rfl | rfl | rfl <;> rfl

theorem valueOf_ok {s : Setting} {v : Value} (h : valueOf s = .ok v) : s.toValue = .ok v := by
  unfold valueOf at h
  cases read : s.toValue with
  | error e => rw [read] at h; cases h
  | ok w => rw [read] at h; cases h; rfl

theorem sound_inject : inject.Sound := by
  have made {spec : NodeSpec} {op : Op} (h : inject.make spec = .ok op) : ∃ s fallback,
      op = .inject spec.name s fallback ∧
      (s.isDefined = true ∨ ∃ v, spec.value.toValue = .ok v ∧ v.shape = s) := by
    unfold inject at h
    dsimp only at h
    split at h
    · cases h
    split at h
    · obtain ⟨s, read, h⟩ := bind_ok h
      cases h
      exact ⟨s, none, rfl, .inl (shapeOf_isDefined read)⟩
    · obtain ⟨v, read, h⟩ := bind_ok h
      cases h
      exact ⟨v.shape, some v, rfl, .inr ⟨v, valueOf_ok read, rfl⟩⟩
  constructor
  · intro spec op h; obtain ⟨s, fallback, rfl, -⟩ := made h; rfl
  · intro spec op h; obtain ⟨s, fallback, rfl, -⟩ := made h; exact nofun
  · intro spec op h; obtain ⟨s, fallback, rfl, -⟩ := made h; rfl
  · intro spec op name s fallback h is
    obtain ⟨s', fallback', rfl, shaped⟩ := made h
    cases is
    exact shaped

theorem sound_recipes : ∀ p ∈ recipes, p.2.Sound := by
  have pair : (Recipe.fixed 2 .construct).Sound := sound_fixed (.inl rfl) rfl
  have triple : (Recipe.fixed 3 .construct).Sound := sound_fixed (.inr rfl) rfl
  unfold recipes
  simp only [forall_mem_append, forall_mem_map, forall_mem_cons, not_mem_nil,
    false_implies, implies_true, and_true, true_and, pair, triple, sound_swizzle,
    sound_cast, sound_broadcast, sound_noise, sound_fractal, sound_distance, sound_cellular,
    sound_cache, sound_inject, sound_const]
  repeat' apply And.intro
  all_goals exact sound_fixed rfl rfl

theorem sound_of_recipe? {op : String} {r : Recipe} (h : recipe? op = some r) : r.Sound :=
  sound_recipes _ (mem_of_lookup h)

/-! ## nodes of a document -/

def Added (old g : Graph) (id : Nat) : Prop :=
  id = Graph.positionId ∨ old.size < id ∧ id ≤ g.size

theorem Added.mono {old g' : Graph} {id : Nat} (h : Added old g id) (le : g.size ≤ g'.size) :
    Added old g' id := by
  rcases h with rfl | ⟨new, there⟩
  · exact .inl rfl
  · exact .inr ⟨new, there.trans le⟩

theorem Added.isSome {old : Graph} {id : Nat} (h : Added old g id) (nonempty : 0 < g.size) :
    (g.get? id).isSome = true := by
  rw [Graph.isSome_get?]
  rcases h with rfl | ⟨new, there⟩
  · exact ⟨Nat.one_pos, nonempty⟩
  · exact ⟨by omega, there⟩

/-- the world position is a node over nothing -/
theorem get?_positionId {h : Graph} (built : h.Built) :
    h.get? Graph.positionId = some ⟨Graph.positionId, .position, []⟩ := by
  have wf := built.wellFormed
  obtain ⟨m, found⟩ := Graph.exists_get? (i := Graph.positionId) ⟨Nat.le_refl 1, built.size_pos⟩
  have op : m.op = .position := (wf.position found).2 rfl
  have inputs : m.inputs = [] := by
    rcases wf.takes found with takes | ⟨name, s, w, ref, -⟩
    · rw [op] at takes
      exact eq_nil_of_length_eq_zero takes
    · rw [op] at ref
      cases ref
  rw [found]
  obtain ⟨id, op', inputs'⟩ := m
  cases wf.id_eq found
  cases op
  cases inputs
  rfl

theorem placeAll_nodes (g : Graph) (id : NodeId) (ids : List NodeId) :
    g.placeAll id (ids.map .node) = (ids.map fun i => (g.get? i).map Node.wire, []) := by
  induction ids with
  | nil => rfl
  | cons i ids ih =>
    show (_ :: (g.placeAll id (ids.map .node)).1, [] ++ (g.placeAll id (ids.map .node)).2) = _
    rw [ih]
    rfl

theorem insert_nodes (g : Graph) (op : Op) (ids : List NodeId) :
    g.insert op (ids.map .node) =
      (g.next, ⟨g.nodes ++ [⟨g.next, op, ids.map fun i => (g.get? i).map Node.wire⟩].toArray⟩) := by
  unfold Graph.insert
  dsimp only
  rw [placeAll_nodes]

theorem size_insert_nodes (g : Graph) (op : Op) (ids : List NodeId) :
    (g.insert op (ids.map .node)).2.size = g.size + 1 := by
  rw [insert_nodes]
  unfold Graph.size
  rw [Array.size_append]
  rfl

theorem get?_insert_nodes (g : Graph) (op : Op) (ids : List NodeId) (id : Nat) :
    (g.insert op (ids.map .node)).2.get? id =
      if id = g.size + 1 then some ⟨g.next, op, ids.map fun i => (g.get? i).map Node.wire⟩
      else g.get? id := by
  rw [insert_nodes, Graph.get?_append]
  by_cases new : id = g.size + 1
  · subst new
    rw [if_neg (by omega), if_pos rfl]
    simp
  rw [if_neg new]
  by_cases old : id ≤ g.size
  · rw [if_pos old]
  · have absent : g.get? id = none := by
      rw [← Option.not_isSome_iff_eq_none, Graph.isSome_get?]
      omega
    rw [if_neg old, absent]
    have later : id - 1 - g.size ≠ 0 := by omega
    simp [later]

/-! ## building -/

section
variable {made : Op → Prop} {old : Graph} {b b' : Builder} {α β : Type}

structure Raised (made : Op → Prop) (old : Graph) (b : Builder) : Prop where
  built : b.graph.Built
  grown : old.size ≤ b.graph.size
  kept : ∀ id, id ≤ old.size → b.graph.get? id = old.get? id
  names : ∀ p ∈ b.built, Added old b.graph p.2
  ops : ∀ {id n}, old.size < id → b.graph.get? id = some n → made n.op
  inputs : ∀ {id n}, old.size < id → b.graph.get? id = some n →
    ∀ o ∈ n.inputs, ∃ w, o = some w ∧ w.source < id ∧ Added old b.graph w.source

theorem raised_start (built : old.Built) : Raised made old ⟨old, []⟩ where
  built := built
  grown := le_rfl
  kept _ _ := rfl
  names := nofun
  ops new found := absurd (Graph.le_size_of_get? found).2 (Nat.not_le_of_lt new)
  inputs new found := absurd (Graph.le_size_of_get? found).2 (Nat.not_le_of_lt new)

/-- the outcome of a step of building -/
def outcome (m : BuildM α) (b : Builder) : Except DocumentError α × Builder := m.run.run b

theorem outcome_bind (m : BuildM α) (f : α → BuildM β) (b : Builder) :
    outcome (m >>= f) b = match outcome m b with
      | (.ok a, b') => outcome (f a) b'
      | (.error e, b') => (.error e, b') := by
  show (match m b with | (r, b') => ExceptT.bindCont f r b') = _
  unfold outcome ExceptT.run StateT.run
  cases m b with
  | mk r b' => cases r <;> rfl

theorem outcome_bind_ok {m : BuildM α} {f : α → BuildM β} {y : β} :
    outcome (m >>= f) b = (.ok y, b') ↔
      ∃ x d, outcome m b = (.ok x, d) ∧ outcome (f x) d = (.ok y, b') := by
  rw [outcome_bind]
  cases outcome m b with
  | mk r d =>
    cases r with
    | error e =>
      constructor
      · intro h
        cases h
      · rintro ⟨x, d, h, -⟩
        cases h
    | ok x =>
      refine ⟨fun h => ⟨x, d, rfl, h⟩, ?_⟩
      rintro ⟨x', d', same, h⟩
      cases same
      exact h

theorem outcome_mapM_cons {f : α → BuildM β} {x : α} {xs : List α} {ys : List β} :
    outcome ((x :: xs).mapM f) b = (.ok ys, b') ↔ ∃ y rest d, outcome (f x) b = (.ok y, d) ∧
      outcome (xs.mapM f) d = (.ok rest, b') ∧ y :: rest = ys := by
  rw [mapM_cons, outcome_bind_ok]
  constructor
  · rintro ⟨y, d, head, h⟩
    obtain ⟨rest, d', tail, same⟩ := outcome_bind_ok.1 h
    cases same
    exact ⟨y, rest, d, head, tail, rfl⟩
  · rintro ⟨y, rest, d, head, tail, rfl⟩
    exact ⟨y, d, head, outcome_bind_ok.2 ⟨rest, b', tail, rfl⟩⟩

/-- the step keeps the invariant whatever comes of it and takes no node away; what it results in has
the property `P`, and when it fails the document is at fault -/
structure Raises (made : Op → Prop) (old : Graph) (m : BuildM α) (b : Builder)
    (P : α → Graph → Prop) : Prop where
  raised : Raised made old (outcome m b).2
  grows : b.graph.size ≤ (outcome m b).2.graph.size
  result : ∀ a, (outcome m b).1 = .ok a → P a (outcome m b).2.graph
  failure : ∀ f, (outcome m b).1 ≠ .error (.compile f)

theorem raises_pure {a : α} {P : α → Graph → Prop} (h : Raised made old b) (holds : P a b.graph) :
    Raises made old (pure a) b P where
  raised := h
  grows := le_rfl
  result _ same := by cases same; exact holds
  failure _ := nofun

theorem raises_throw {P : α → Graph → Prop} (h : Raised made old b) (own : ∀ f, e ≠ .compile f) :
    Raises made old (throw e) b P where
  raised := h
  grows := le_rfl
  result _ same := by cases same
  failure f same := own f (Except.error.inj same)

theorem raises_throw_bind {f : α → BuildM β} {P : β → Graph → Prop} (h : Raised made old b)
    (own : ∀ f, e ≠ .compile f) : Raises made old (throw e >>= f) b P where
  raised := h
  grows := le_rfl
  result _ same := by cases same
  failure f same := own f (Except.error.inj same)

theorem Raises.bind {m : BuildM α} {f : α → BuildM β} {P : α → Graph → Prop} {Q : β → Graph → Prop}
    (h : Raises made old m b P)
    (next : ∀ a b', Raised made old b' → b.graph.size ≤ b'.graph.size → P a b'.graph →
      Raises made old (f a) b' Q) : Raises made old (m >>= f) b Q := by
  have raised := h.raised
  have grows := h.grows
  have result := h.result
  have failure := h.failure
  have step := outcome_bind m f b
  cases ran : outcome m b with
  | mk r b' =>
    rw [ran] at raised grows result failure step
    cases r with
    | error e =>
      constructor
      · rw [step]; exact raised
      · rw [step]; exact grows
      · rw [step]; nofun
      · rw [step]
        intro f same
        exact failure f (congrArg Except.error (Except.error.inj same))
    | ok a =>
      have rest := next a b' raised grows (result a rfl)
      constructor
      · rw [step]; exact rest.raised
      · rw [step]; exact grows.trans rest.grows
      · rw [step]; exact rest.result
      · rw [step]; exact rest.failure

theorem raises_get_bind {f : Builder → BuildM β} {Q : β → Graph → Prop}
    (h : Raises made old (f b) b Q) : Raises made old (get >>= f) b Q := by
  have step : outcome (get >>= f) b = outcome (f b) b := by rw [outcome_bind]; rfl
  constructor
  · rw [step]; exact h.raised
  · rw [step]; exact h.grows
  · rw [step]; exact h.result
  · rw [step]; exact h.failure

theorem raises_mapM {ι : Type} {f : ι → BuildM α} {P : α → Graph → Prop}
    (mono : ∀ a (g g' : Graph), g.size ≤ g'.size → P a g → P a g') {l : List ι}
    (step : ∀ i ∈ l, ∀ b, Raised made old b → Raises made old (f i) b P) (h : Raised made old b) :
    Raises made old (l.mapM f) b (fun as g => as.length = l.length ∧ ∀ a ∈ as, P a g) := by
  induction l generalizing b with
  | nil => exact raises_pure h ⟨rfl, nofun⟩
  | cons i l ih =>
    rw [mapM_cons]
    refine (step i (by simp) b h).bind fun a b' raised _ holds => ?_
    refine (ih (fun j member => step j (by simp [member])) raised).bind
      fun as b'' raised' le rest => ?_
    exact raises_pure raised' ⟨congrArg (· + 1) rest.1,
      forall_mem_cons.2 ⟨mono _ _ _ le holds, rest.2⟩⟩

theorem outcome_build (op : Op) (ids : List NodeId) (b : Builder) : outcome (build op ids) b =
    (.ok b.graph.next, { b with graph := (b.graph.insert op (ids.map .node)).2 }) := by
  rw [insert_nodes]
  show (Except.ok (b.graph.insert op (ids.map .node)).1,
    { b with graph := (b.graph.insert op (ids.map .node)).2 }) = _
  rw [insert_nodes]

theorem raises_build {op : Op} {ids : List NodeId} (h : Raised made old b) (is : made op)
    (other : op ≠ .position) (takes : op.Takes ids.length)
    (sources : ∀ id ∈ ids, Added old b.graph id) :
    Raises made old (build op ids) b (fun id g => Added old g id) := by
  have left := outcome_build op ids b
  have size := size_insert_nodes b.graph op ids
  have look := get?_insert_nodes b.graph op ids
  have built : (b.graph.insert op (ids.map .node)).2.Built :=
    .insert op _ h.built other (by rwa [length_map])
  generalize (b.graph.insert op (ids.map .node)).2 = g at left size look built
  have grown := h.grown
  refine ⟨?_, ?_, ?_, ?_⟩
  · rw [left]
    refine ⟨built, ?_, ?_, ?_, ?_, ?_⟩
    · show old.size ≤ g.size
      omega
    · intro id small
      show g.get? id = _
      rw [look, if_neg (by omega), h.kept id small]
    · intro p member
      exact (h.names p member).mono (by show b.graph.size ≤ g.size; omega)
    · intro id n new found
      have found : g.get? id = some n := found
      rw [look] at found
      split at found
      · cases found
        exact is
      · exact h.ops new found
    · intro id n new found o input
      have found : g.get? id = some n := found
      have grows : b.graph.size ≤ g.size := by omega
      rw [look] at found
      split at found
      case isTrue last =>
        cases found
        obtain ⟨i, member, rfl⟩ := mem_map.1 input
        have added := sources i member
        obtain ⟨m, there⟩ := Option.isSome_iff_exists.1 (added.isSome h.built.size_pos)
        have inside := (Graph.le_size_of_get? there).2
        have same : m.wire.source = i := h.built.wellFormed.id_eq there
        exact ⟨m.wire, by rw [there]; rfl, by rw [same, last]; exact Nat.lt_succ_of_le inside,
          same ▸ added.mono grows⟩
      case isFalse =>
        obtain ⟨w, same, lower, added⟩ := h.inputs new found o input
        exact ⟨w, same, lower, added.mono grows⟩
  · rw [left]
    show b.graph.size ≤ g.size
    omega
  · rw [left]
    intro id same
    cases same
    exact .inr ⟨Nat.lt_succ_of_le grown, size.symm.le⟩
  · rw [left]
    exact fun _ => nofun

theorem raises_remember {name : String} {id : NodeId} (h : Raised made old b)
    (added : Added old b.graph id) :
    Raises made old (remember name id) b (fun _ g => Added old g id) where
  raised := {
    built := h.built
    grown := h.grown
    kept := h.kept
    ops := h.ops
    inputs := h.inputs
    names := forall_mem_cons.2 ⟨added, h.names⟩ }
  grows := le_rfl
  result _ _ := added
  failure _ := nofun

end

/-- every operation that the document makes has the property: that of a literal input, and what a
recipe makes of a node -/
structure Makes (doc : Document) (made : Op → Prop) : Prop where
  literal : ∀ v, made (.constant v)
  node : ∀ {name spec recipe op}, (name, spec) ∈ doc.nodes → recipe? spec.op = some recipe →
    recipe.make spec = .ok op → made op

section
variable {made : Op → Prop} {old : Graph} {b : Builder} {doc : Document}

theorem raises_buildInput (makes : doc.Makes made) {resolve : String → BuildM NodeId}
    (step : ∀ name b, Raised made old b →
      Raises made old (resolve name) b (fun id g => Added old g id))
    (owner : String) (i : Input) (h : Raised made old b) :
    Raises made old (buildInput resolve owner i) b (fun id g => Added old g id) := by
  cases i with
  | reference name => exact step name b h
  | literal line s =>
    unfold buildInput
    dsimp only
    split
    case h_1 v _ =>
      exact raises_build h (makes.literal v) Op.noConfusion rfl nofun
    case h_2 => exact raises_throw h fun _ => DocumentError.noConfusion
  | unreadable line => exact raises_throw h fun _ => DocumentError.noConfusion

theorem raises_resolve (makes : doc.Makes made) (fuel : Nat) (path : List String) (name : String)
    (h : Raised made old b) :
    Raises made old (doc.resolve fuel path name) b (fun id g => Added old g id) := by
  induction fuel generalizing path name b with
  | zero => exact raises_throw h fun _ => DocumentError.noConfusion
  | succ fuel ih =>
    unfold resolve
    by_cases position : name = positionName
    · rw [if_pos position]
      exact raises_pure h (.inl rfl)
    rw [if_neg position]
    dsimp only
    by_cases loop : path.contains name = true
    · rw [if_pos loop]
      exact raises_throw_bind h fun _ => DocumentError.noConfusion
    rw [if_neg loop]
    refine raises_get_bind ?_
    cases known : b.built.lookup name with
    | some id => exact raises_pure h (h.names (name, id) (mem_of_lookup known))
    | none =>
    cases listed : doc.nodes.lookup name with
    | none => exact raises_throw h fun _ => DocumentError.noConfusion
    | some spec =>
    dsimp only
    cases found : recipe? spec.op with
    | none => exact raises_throw h fun _ => DocumentError.noConfusion
    | some recipe =>
    dsimp only
    by_cases count : spec.inputs.length ≠ recipe.inputs
    · rw [if_pos count]
      exact raises_throw_bind h fun _ => DocumentError.noConfusion
    rw [if_neg count]
    refine (raises_mapM (fun id g g' le added => added.mono le)
      (fun i _ b h => raises_buildInput makes (fun other b h => ih _ other h) name i h)
      h).bind fun ids b' raised _ inputs => ?_
    cases made' : recipe.make spec with
    | error fault => exact raises_throw raised fun _ => DocumentError.noConfusion
    | ok op =>
    have sound := sound_of_recipe? found
    have takes : op.Takes ids.length := by
      rw [inputs.1, Decidable.not_not.1 count]
      exact sound.takes made'
    refine (raises_build raised (makes.node (mem_of_lookup listed) found made')
      (sound.other made') takes inputs.2).bind fun id b'' raised' _ added => ?_
    exact (raises_remember raised' added).bind fun _ d raised'' _ added' =>
      raises_pure raised'' added'

/-- the graph of a document is built, what was there is still there, and the roots are nodes of the
document -/
theorem roots_raised (makes : doc.Makes made) (built : old.Built) :
    (∃ b, Raised made old b ∧ b.graph = (doc.roots old).2) ∧
    (∀ roots, (doc.roots old).1 = .ok roots →
      ∀ r ∈ roots, ∃ id, r.node = some id ∧ Added old (doc.roots old).2 id) ∧
    ∀ f, (doc.roots old).1 ≠ .error (.compile f) := by
  have rooted : Raises made old (doc.targets.mapM (buildRoot doc)) ⟨old, []⟩ (fun roots g =>
      roots.length = doc.targets.length ∧
      ∀ r ∈ roots, ∃ id, r.node = some id ∧ Added old g id) := by
    refine raises_mapM ?_ ?_ (raised_start built)
    · rintro r g g' le ⟨id, node, added⟩
      exact ⟨id, node, added.mono le⟩
    · intro target _ b h
      exact (raises_resolve makes _ [] _ h).bind fun id b' raised _ added =>
        raises_pure raised ⟨id, rfl, added⟩
  exact ⟨⟨_, rooted.raised, rfl⟩, fun roots h => (rooted.result roots h).2, rooted.failure⟩

theorem makes_any (doc : Document) : doc.Makes fun _ => True :=
  ⟨fun _ => trivial, fun _ _ _ => trivial⟩

theorem built_roots (doc : Document) (built : old.Built) : (doc.roots old).2.Built := by
  obtain ⟨⟨b, raised, graph⟩, -, -⟩ := roots_raised doc.makes_any built
  exact graph ▸ raised.built

theorem there_roots (built : old.Built) {roots : List Root} (h : (doc.roots old).1 = .ok roots) :
    ∀ r ∈ roots, ∀ id, r.node = some id → ((doc.roots old).2.get? id).isSome = true := by
  intro r member id node
  obtain ⟨id', node', added⟩ := (roots_raised doc.makes_any built).2.1 roots h r member
  cases node.symm.trans node'
  exact added.isSome (doc.built_roots built).size_pos

end

/-! ## compiling -/

theorem mapM_error {ε α β : Type} {f : α → Except ε β} {l : List α} {e : ε}
    (h : l.mapM f = .error e) : ∃ a ∈ l, f a = .error e := by
  induction l with
  | nil => cases h
  | cons a l ih =>
    rw [mapM_cons] at h
    rcases bind_error h with failed | ⟨b, -, h⟩
    · exact ⟨a, by simp, failed⟩
    rcases bind_error h with failed | ⟨bs, -, h⟩
    · obtain ⟨a', member, failed⟩ := ih failed
      exact ⟨a', by simp [member], failed⟩
    · cases h

theorem values_error (h : doc.values = .error e) : ∃ name reason, e = .parameter name reason := by
  obtain ⟨⟨name, s⟩, -, failed⟩ := mapM_error h
  dsimp only at failed
  cases read : s.toValue with
  | ok v => rw [read] at failed; cases failed
  | error reason => rw [read] at failed; exact ⟨name, reason, (Except.error.inj failed).symm⟩

theorem compile_eq {o : Compile.Options} {roots : List Root} {values : Bindings}
    (rooted : (doc.roots g).1 = .ok roots) (valued : doc.values = .ok values) :
    (doc.compile g o).1 = ((doc.roots g).2.compile roots
      { o with bindings := o.bindings ++ values }).mapError .compile := by
  show ((doc.roots g).1 >>= fun roots => doc.values >>= fun values => _) = _
  rw [rooted, valued]
  rfl

theorem compile_cases {o : Compile.Options} {r : Except DocumentError Program}
    (h : (doc.compile g o).1 = r) :
    (∃ e, (doc.roots g).1 = .error e ∧ r = .error e) ∨
    (∃ name e, r = .error (.parameter name e)) ∨
    ∃ roots values, (doc.roots g).1 = .ok roots ∧ doc.values = .ok values ∧
      r = ((doc.roots g).2.compile roots
        { o with bindings := o.bindings ++ values }).mapError .compile := by
  cases rooted : (doc.roots g).1 with
  | error e =>
    refine .inl ⟨e, rfl, ?_⟩
    rw [← h]
    show ((doc.roots g).1 >>= fun roots => _) = _
    rw [rooted]
    rfl
  | ok roots =>
    cases valued : doc.values with
    | ok values =>
      exact .inr (.inr ⟨roots, values, rfl, rfl, h.symm.trans (compile_eq rooted valued)⟩)
    | error e =>
      obtain ⟨name, reason, rfl⟩ := values_error valued
      refine .inr (.inl ⟨name, reason, ?_⟩)
      rw [← h]
      show ((doc.roots g).1 >>= fun roots => doc.values >>= fun values => _) = _
      rw [rooted, valued]
      rfl

theorem error_of_mapError {m : Except Failure Program} {f : Failure}
    (h : m.mapError DocumentError.compile = .error (.compile f)) : m = .error f := by
  cases m with
  | ok p => cases h
  | error f' => cases h; rfl

theorem compile_verdict_document (doc : Document) (built : g.Built) (o : Compile.Options)
    {f : Failure} (h : (doc.compile g o).1 = .error (.compile f)) : f.IsVerdict := by
  rcases compile_cases h with ⟨e, failed, same⟩ | ⟨name, e, same⟩ | ⟨roots, values, made, -, same⟩
  · cases same
    exact absurd failed ((roots_raised doc.makes_any built).2.2 f)
  · cases same
  · exact compile_verdict (doc.built_roots built) _ (there_roots built made)
      (error_of_mapError same.symm)

end Terrain.Document

namespace Terrain

/-- the dot product of nothing with nothing -/
def lostOperands : Graph := (Graph.initial.insert .dot [.missing, .missing]).2

theorem built_lostOperands : lostOperands.Built :=
  .insert _ _ .initial nofun rfl

theorem mem_blames {e : CompileError} (h : e.blame ≠ .other) :
    e.blame ∈ [Blame.graph, .shape, .configuration] := by
  generalize e.blame = b at h
  cases b with
  | other => exact absurd rfl h
  | _ => decide

/-- **Compiling never breaks down.**  Outputs of a graph, or a document, make a program or are
refused.  The routines that a typed node asks for by name are in the library, and a point has no
more lanes than there are names for.  Generating a node that compiling refuses can break down. -/
theorem compile_never_faults {g : Graph} (built : g.Built) (o : Compile.Options) :
    (∀ roots, (∀ r ∈ roots, ∀ id, r.node = some id → (g.get? id).isSome = true) →
      (∃ p, g.compile roots o = .ok p) ∨
      ∃ e, g.compile roots o = .error (.refused e) ∧ e.blame ∈ [.graph, .shape, .configuration]) ∧
    (∀ doc : Document, (∃ p, (doc.compile g o).1 = .ok p) ∨
      ∃ e, (doc.compile g o).1 = .error e ∧ ∀ f, e ≠ .compile (.fault f)) ∧
    (∀ id n, g.get? id = some n → n.typing = .ok n.shape →
      (∀ name ∈ n.routineNames, ∀ c, ∃ c', Compile.Ran (Compile.requireNamed name) c () c') ∧
      ∀ k, n.lanesTaken = some k → 1 ≤ k ∧ k ≤ Kernel.Expr.laneNames.length) ∧
    ∃ c, Compile.outcome (Compile.emit lostOperands 2) (.opened o) =
      (.error (.fault .missingNode), c) := by
  refine ⟨?_, ?_, ?_, ?_⟩
  · intro roots there
    cases result : g.compile roots o with
    | ok p => exact .inl ⟨p, rfl⟩
    | error f =>
      have verdict := compile_verdict built o there result
      cases f with
      | fault f => exact verdict.elim
      | refused e => exact .inr ⟨e, rfl, mem_blames verdict⟩
  · intro doc
    cases result : (doc.compile g o).1 with
    | ok p => exact .inl ⟨p, rfl⟩
    | error e =>
      refine .inr ⟨e, rfl, ?_⟩
      rintro f rfl
      exact doc.compile_verdict_document built o result
  · intro id n found typed
    have wf := built.wellFormed
    obtain ⟨ws, inputs, -⟩ := typed_operands typed
    rw [← wf.id_eq found] at found
    refine ⟨?_, fun k taken => lanesTaken_le wf found inputs typed taken⟩
    intro name asked c
    rw [routineNames_eq wf found inputs typed] at asked
    obtain ⟨r, -, rfl⟩ := List.mem_map.1 asked
    exact ran_requireNamed r c
  · exact ⟨_, rfl⟩

/-- the lost operands are refused and not met -/
theorem compile_never_faults_lost :
    ∃ e, lostOperands.compile [⟨"density", some 2⟩] default = .error (.refused e) ∧
      e.blame ∈ [.graph, .shape, .configuration] := by
  rcases (compile_never_faults built_lostOperands default).1 [⟨"density", some 2⟩] (by decide) with
    ⟨p, made⟩ | refused
  · have none : (lostOperands.compile [⟨"density", some 2⟩] default).isOk = false := by
      decide +kernel
    rw [made] at none
    cases none
  · exact refused

end Terrain
