import Terrain.Proofs.Accepts
import Terrain.Proofs.Tables

/-!
# Shapes of buffers and parameters

A node that computes has one of the six shapes, and so has a constant.  A parameter that is bound
by name brings its shape from outside, and no check asks for one of the six there.  So a buffer has
one of them, or the shape of such a parameter; and an output of a fixed shape has that one, or none.

* `Graph.Declares`    a parameter of a name and a shape is asked for;
* `Given`             a shape that is one of the six, or that a parameter brought;
* `Shaped`            buffers have such shapes, those of outputs the shapes of their nodes;
* `compile_shapes`    what the buffers and the parameters of a program look like.
-/

namespace Terrain

open Compile List

variable {n : Node}

/-! ## checked outputs -/

theorem validate_target {g : Graph} (wf : g.WellFormed) {roots : List Root} {required : List String}
    (h : g.validate roots required = .ok ()) {r : Root} (member : r ∈ roots)
    (found : r.node.bind g.get? = some n) {want : Shape}
    (fixed : targetShape? r.target = some want) :
    n.shape = want ∨ n.shape.isDefined = false := by
  obtain ⟨seen, -, -, walked⟩ := validate_ok_iff.1 h
  obtain ⟨done, -, -, rooted⟩ := walkRoots_ok wf walked .nil
  have checked := (rooted r member n found).2
  unfold Validate.checkTargetShape at checked
  rw [fixed] at checked
  dsimp only at checked
  split at checked
  case isTrue => cases checked
  case isFalse fits =>
    by_cases same : n.shape = want
    · exact .inl same
    · exact .inr (Bool.eq_false_iff.2 fun defined => fits ⟨same, defined⟩)

theorem targetShape_cache (k : Nat) : targetShape? ("cache_" ++ toString k) = none := by
  have other (name : String) (free : ¬ "cache_".toList <+: name.toList) :
      "cache_" ++ toString k ≠ name := by
    rintro rfl
    rw [String.toList_append] at free
    exact free (prefix_append _ _)
  unfold targetShape?
  split
  case h_1 same => exact absurd same (other _ (by decide))
  case h_2 same => exact absurd same (other _ (by decide))
  case h_3 same => exact absurd same (other _ (by decide))
  case h_4 same => exact absurd same (other _ (by decide))
  case h_5 => rfl

def Graph.Declares (g : Graph) (name : String) (s : Shape) : Prop :=
  ∃ n fallback, g.get? n.id = some n ∧ n.op = .inject name s fallback

namespace Compile

open Kernel Hash

/-! ## what is given -/

def Given (c : Context) (s : Shape) : Prop :=
  s.isDefined = true ∨ ∃ q ∈ c.parameters, q.injected = true ∧ q.shape = s

/-- the node of a symbol has a shape that is given -/
abbrev HasGiven (g : Graph) : Context → ScopeId → NodeId → Symbol → Prop :=
  OfShape g fun c _ shape _ => Given c shape

/-- a parameter has one of the six shapes, or one that was asked for by name -/
def Admitted (g : Graph) (q : Parameter) : Prop :=
  q.shape.isDefined = true ∨ q.injected = true ∧ g.Declares q.name q.shape

structure Shaped (g : Graph) (rs : List Root) (c : Context) : Prop where
  admitted : ∀ q ∈ c.parameters, Admitted g q
  injected : ∀ p ∈ c.injectedSlots, ∃ q, c.parameters[p.2]? = some q ∧ q.injected = true
  given : ∀ b ∈ c.buffers, Given c b.shape
  source : ∀ b ∈ c.buffers, (∃ k : Nat, b.name = "cache_" ++ toString k) ∨
    ∃ r ∈ rs, ∃ n, r.node.bind g.get? = some n ∧ b.name = r.target ∧ b.shape = n.shape

section
variable {g : Graph} {rs : List Root} {c c' : Context} {done : List NodeId}

theorem Given.later {s : Shape} (h : Given c s) (grows : c.parameters <+: c'.parameters) :
    Given c' s :=
  h.imp_right fun ⟨q, member, injected, same⟩ => ⟨q, grows.subset member, injected, same⟩

theorem Shaped.later (h : Shaped g rs c) (buffers : c'.buffers = c.buffers)
    (grows : c.parameters <+: c'.parameters)
    (new : ∀ q ∈ c'.parameters, q ∈ c.parameters ∨ Admitted g q)
    (slots : ∀ p ∈ c'.injectedSlots, p ∈ c.injectedSlots ∨
      ∃ q, c'.parameters[p.2]? = some q ∧ q.injected = true) : Shaped g rs c' where
  admitted q member := (new q member).elim (h.admitted q) id
  injected p member := by
    rcases slots p member with old | there
    · obtain ⟨q, listed, injected⟩ := h.injected p old
      obtain ⟨more, same⟩ := grows
      exact ⟨q, same ▸ getElem?_append_of_some listed, injected⟩
    · exact there
  given b member := (h.given b (buffers ▸ member)).later grows
  source b member := h.source b (buffers ▸ member)

theorem Shaped.same (h : Shaped g rs c) (t : SameTables c c') (buffers : c'.buffers = c.buffers) :
    Shaped g rs c' :=
  h.later buffers (t.parameters ▸ prefix_rfl) (fun _ member => .inl (t.parameters ▸ member))
    fun _ member => .inl (t.injectedSlots ▸ member)

theorem Shaped.outputAdded {rs' : List Root} (h : Shaped g rs c) (id : DispatchId) {target : String}
    {shape : Shape} (more : rs ⊆ rs') (given : Given c shape)
    (own : (∃ k : Nat, target = "cache_" ++ toString k) ∨
      ∃ r ∈ rs', ∃ n, r.node.bind g.get? = some n ∧ target = r.target ∧ shape = n.shape) :
    Shaped g rs' (c.outputAdded id target shape) where
  admitted := h.admitted
  injected := h.injected
  given := forall_mem_append.2 ⟨h.given, forall_mem_singleton.2 given⟩
  source := by
    refine forall_mem_append.2 ⟨fun b member => ?_, forall_mem_singleton.2 own⟩
    exact (h.source b member).imp_right fun ⟨r, there, found⟩ => ⟨r, more there, found⟩

theorem Accepted.computes (wf : g.WellFormed) (accepted : Accepted g done n)
    (inner : n.op.isLeaf = false) (changes : n.op ≠ .cast (n.inputShape 0)) :
    n.shape.isDefined = true := by
  obtain ⟨ws, inputs, -⟩ := typed_operands accepted.typed
  refine (wf.accepts accepted.found inputs accepted.typed inner).isDefined fun op shapes =>
    changes ?_
  obtain ⟨w, rfl, same⟩ := map_eq_singleton_iff.1 shapes
  rw [op, ← same]
  simp [Node.inputShape, inputs]

theorem Accepted.cached (wf : g.WellFormed) {reduction : Int} (accepted : Accepted g done n)
    (op : n.op = .cache reduction) : n.shape.isDefined = true :=
  accepted.computes wf (by rw [op]; rfl) (by simp [op])

theorem isLeaf_of_isPlain (plain : Node.isPlain n = true) : n.op.isLeaf = false := by
  unfold Node.isPlain at plain
  unfold Op.isLeaf
  split <;> simp_all

theorem isLeaf_of_parts {r : Routine} {spec : Nested} {t : Template}
    (parts : nestedParts n = some (r, spec, t)) : n.op.isLeaf = false := by
  unfold nestedParts at parts
  split at parts
  case h_1 op => rw [op]; rfl
  case h_2 op => rw [op]; rfl
  case h_3 => cases parts

theorem Accepted.plain (wf : g.WellFormed) (accepted : Accepted g done n)
    (plain : Node.isPlain n = true) : n.shape.isDefined = true := by
  refine accepted.computes wf (isLeaf_of_isPlain plain) ?_
  intro op
  simp [Node.isPlain, op] at plain

theorem preserved_shaped (wf : g.WellFormed) (size_pos : 0 < g.size) (rs : List Root) :
    Preserved g done (Shaped g rs) (HasGiven g) where
  idle idle h :=
    h.same ⟨idle.options, idle.parameters, idle.constantSlots, idle.injectedSlots⟩ idle.buffers
  later reaches _ _ _ _ := fun ⟨n, found, given⟩ => ⟨n, found, given.later reaches.grows.parameters⟩
  start _ _ := ofShape_position wf size_pos (.inl rfl)
  constant {c c' n v slot} held accepted op taken _ := by
    have defined := accepted.constant op
    refine ⟨?_, n, accepted.found, .inl (accepted.shape (fun _ => by rw [op]; rfl) ▸ defined)⟩
    cases taken with
    | again known => exact held.fact
    | first unknown =>
      refine held.fact.later rfl (prefix_append _ _) (forall_mem_append.2 ⟨?_, ?_⟩)
        fun _ member => .inl member
      · exact fun _ member => .inl member
      · exact forall_mem_singleton.2 (.inr (.inl defined))
  inject {c c' n name shape fallback v slot} held accepted op bound fits taken _ := by
    have own : n.shape = v.shape := fits ▸ accepted.shape (fun _ => by rw [op]; rfl)
    cases taken with
    | again known same =>
      obtain ⟨q, listed, injected⟩ := held.fact.injected _ (mem_of_lookup known)
      rw [listed] at same
      exact ⟨held.fact, n, accepted.found,
        .inr ⟨q, mem_of_getElem? listed, injected, same.trans own.symm⟩⟩
    | first unknown =>
      refine ⟨held.fact.later rfl (prefix_append _ _) (forall_mem_append.2 ⟨?_, ?_⟩) ?_,
        n, accepted.found, .inr ⟨_, mem_append_cons_self, rfl, own.symm⟩⟩
      · exact fun _ member => .inl member
      · exact forall_mem_singleton.2 (.inr (.inr ⟨rfl, n, fallback, accepted.found, fits ▸ op⟩))
      · refine forall_mem_cons.2 ⟨.inr ⟨_, getElem?_concat_length, rfl⟩, ?_⟩
        exact fun _ member => .inl member
  ref _ accepted op inputs given := given.ref wf accepted op inputs
  same _ accepted op inputs given := given.same wf accepted op inputs
  term held accepted plain _ _ _ _ made _ :=
    ⟨made ▸ held.fact.same ⟨rfl, rfl, rfl, rfl⟩ rfl, _, accepted.found,
      .inl (accepted.plain wf plain)⟩
  distance held accepted op _ _ _ made made' _ :=
    ⟨made' ▸ made ▸ held.fact.same ⟨rfl, rfl, rfl, rfl⟩ rfl, _, accepted.found,
      .inl (accepted.computes wf (by rw [op]; rfl) (by simp [op]))⟩
  nested {_ _ _ n _ spec _ _ _ _} held accepted parts _ typed _ _ function made _ := by
    have defined : n.shape.isDefined = true := by
      rw [shape_of_nested parts typed]
      unfold nestedParts at parts
      split at parts <;> cases parts <;> rfl
    refine ⟨?_, n, accepted.found, .inl defined⟩
    subst made
    cases function with
    | again known | first unknown => exact held.fact.same ⟨rfl, rfl, rfl, rfl⟩ rfl
  again {c _ reader id} held _ _ _ _ := by
    rw [readAgain_frame]
    exact held.fact.same ⟨rfl, rfl, rfl, rfl⟩ rfl
  opened held _ _ _ _ _ _ := held.fact.same ⟨rfl, rfl, rfl, rfl⟩ rfl
  closed {c _ n _ _ id s} held accepted op _ positive inside _ _ _ _ made _ := by
    obtain ⟨k, -, named⟩ := held.kept.cacheNames id inside positive
    have left : Shaped g rs { c.lined [⟨0, .store "out_value" (.sym s)⟩] with
        stack := c.stack.tail } := held.fact.same ⟨rfl, rfl, rfl, rfl⟩ rfl
    exact made ▸ left.outputAdded id (Subset.refl _)
      (.inl (accepted.cached wf op)) (.inl ⟨k, named⟩)
  sampled held accepted op _ _ _ _ _ made _ :=
    ⟨made ▸ held.fact.same ⟨rfl, rfl, rfl, rfl⟩ rfl, _, accepted.found,
      .inl (accepted.cached wf op)⟩

theorem parsed_shaped (built : g.Built) {roots : List Root} {o : Options}
    (h : g.parsed roots o = .ok c) : Shaped g roots c := by
  obtain ⟨-, -, -, -, shaped⟩ := parsed_holds (I := fun _ rs => Shaped g rs)
    (P := fun _ => HasGiven g) built.wellFormed h
    (fun _ => ⟨fun _ => nofun, fun _ => nofun, fun _ => nofun, fun _ => nofun⟩)
    (fun _ _ rs => preserved_shaped built.wellFormed built.size_pos rs)
    fun _ _ {rs r n s c} held found stands given _ => by
      have stored : Shaped g rs (c.stored r.target n.shape s) :=
        held.fact.same ⟨rfl, rfl, rfl, rfl⟩ rfl
      exact stored.outputAdded 0 (subset_append_left _ _) (given.own stands.found)
        (.inr ⟨r, mem_append_cons_self, n, found, rfl, rfl⟩)
  exact shaped

end

end Compile

/-- **Shapes of buffers and parameters.**  A parameter has one of the six shapes, unless the graph
asks for it by name in another one.  A buffer has one of the six too, the one that is fixed for it
if it is a well-known output, unless it has the other shape of such a parameter. -/
theorem compile_shapes {g : Graph} (built : g.Built) {roots : List Root} {o : Options} {p : Program}
    (h : g.compile roots o = .ok p) :
    (∀ q ∈ p.parameters,
      q.shape.isDefined = true ∨ q.injected = true ∧ g.Declares q.name q.shape) ∧
      ∀ b ∈ p.buffers,
        (b.shape.isDefined = true ∧ ∀ want, targetShape? b.name = some want → b.shape = want) ∨
          b.shape.isDefined = false ∧ ∃ q ∈ p.parameters, q.injected = true ∧
            q.shape = b.shape := by
  obtain ⟨c, parsed, rfl⟩ := compile_ok_iff.1 h
  obtain ⟨-, valid, -⟩ := parsed_ok parsed
  have shaped := parsed_shaped built parsed
  refine ⟨shaped.admitted, fun b member => ?_⟩
  cases defined : b.shape.isDefined with
  | false =>
    refine .inr ⟨rfl, (shaped.given b member).resolve_left ?_⟩
    rw [defined]
    exact Bool.false_ne_true
  | true =>
    refine .inl ⟨rfl, fun want fixed => ?_⟩
    rcases shaped.source b member with ⟨k, named⟩ | ⟨r, there, n, found, named, shape⟩
    · rw [named, targetShape_cache] at fixed
      cases fixed
    · rw [named] at fixed
      rw [shape] at defined ⊢
      exact (validate_target built.wellFormed valid there found fixed).resolve_right
        (by simp [defined])

/-- a parameter that is bound to a value of no shape, and a cache of a constant -/
def shapelessParameter : Graph :=
  let g := (Graph.initial.insertInject "p" (.value ⟨.none, .ofList [.one]⟩)).2
  let g := (g.insert (.constant (.scalar .one)) []).2
  (g.insert (.cache 0) [.node 3]).2

theorem built_shapelessParameter : shapelessParameter.Built :=
  .insert _ _ (.insert _ _ (.insertInject _ _ .initial) (by simp) rfl) (by simp) rfl

theorem compile_shapes_cached :
    ∃ p, shapelessParameter.compile [⟨"density", some 4⟩] ⟨[], some [], 0⟩ = .ok p ∧
      p.buffers.map Buffer.name = ["cache_1", "density"] ∧
      (∀ q ∈ p.parameters, q.shape.isDefined = true ∨
        q.injected = true ∧ shapelessParameter.Declares q.name q.shape) ∧
      ∀ b ∈ p.buffers,
        (b.shape.isDefined = true ∧ ∀ want, targetShape? b.name = some want → b.shape = want) ∨
          b.shape.isDefined = false ∧ ∃ q ∈ p.parameters, q.injected = true ∧
            q.shape = b.shape := by
  have compiled : ∃ p, shapelessParameter.compile [⟨"density", some 4⟩] ⟨[], some [], 0⟩ = .ok p ∧
      p.buffers.map Buffer.name = ["cache_1", "density"] := by decide +kernel
  obtain ⟨p, h, names⟩ := compiled
  exact ⟨p, h, names, compile_shapes built_shapelessParameter h⟩

/-- a value of no shape goes through to the density, which is fixed to be a float -/
theorem shapeless_output :
    shapelessParameter.Built ∧
      ∃ p, shapelessParameter.compile [⟨"density", some 2⟩] ⟨[], some [], 0⟩ = .ok p ∧
        (∃ q ∈ p.parameters, q.shape.isDefined = false) ∧
        ∃ b ∈ p.buffers, b.name = "density" ∧ b.shape.isDefined = false ∧
          targetShape? b.name = some .float :=
  ⟨built_shapelessParameter, by decide +kernel⟩

end Terrain
