import Mathlib.Data.List.Chain
import Mathlib.Logic.Relation
import Terrain.Proofs.Outputs
import Terrain.Proofs.Resolution
import Terrain.Proofs.Shapes

/-!
# Validation is exact

Validation walks depth first from the outputs.  The nodes it is done with lead to no fault and to no
cycle; the nodes on its path each use the next.  So it passes exactly the sets of outputs that
nothing is wrong with, and a cycle that it reports is one.

* `Graph.Reachable`     what outputs lead to;
* `Graph.Valid`         nothing is wrong with a set of outputs;
* `walk_deeper`         the bound on the depth of the walk is never met;
* `unspoilt_of_sorted`  what the walk passes leads to no fault and no cycle;
* `walk_loop`           a cycle that it reports is one;
* `validate_exact`      what validation passes, and what it reports.
-/

namespace Terrain

open Validate List
open Relation (ReflTransGen TransGen)

variable {n : Node} {labels : List String} {place : Option (NodeId × String)}
variable {roots : List Root} {done : List NodeId} {id : NodeId} {path : List Node}

/-! ## what outputs lead to -/

namespace Graph

/-- what an output leads to -/
def Reachable (g : Graph) (roots : List Root) (id : NodeId) : Prop :=
  ∃ r ∈ roots, ∃ start, r.node = some start ∧ ReflTransGen g.Uses start id

theorem Reachable.uses {g : Graph} {a b : NodeId} (h : g.Reachable roots a) (uses : g.Uses a b) :
    g.Reachable roots b := by
  obtain ⟨r, member, start, node, leads⟩ := h
  exact ⟨r, member, start, node, leads.tail uses⟩

/-- nothing is wrong with a set of outputs -/
structure Valid (g : Graph) (roots : List Root) (required : List String) : Prop where
  named : ∀ r ∈ roots, isIdentifier r.target = true
  free : ∀ r ∈ roots, ¬ cacheStem.toList <+: r.target.toList
  distinct : (roots.map Root.target).Nodup
  bound : ∀ r ∈ roots, r.node.isSome = true
  required : ∀ name ∈ required, name ∈ roots.map Root.target
  literals : ∀ {id n}, g.Reachable roots id → g.get? id = some n → ∀ l e, n.op ≠ .unsupported l e
  resolved : ∀ {id n}, g.Reachable roots id → g.get? id = some n →
    ∀ name s, n.op = .ref name s → n.inputs ≠ []
  present : ∀ {id n}, g.Reachable roots id → g.get? id = some n → none ∉ n.inputs
  acyclic : ∀ {id}, g.Reachable roots id → ¬ TransGen g.Uses id id
  shapes : ∀ r ∈ roots, ∀ n want, r.node.bind g.get? = some n → targetShape? r.target = some want →
    n.shape = want ∨ n.shape.isDefined = false

/-- nodes of the graph in a row, each an input of the one before it, and the first
again at the end -/
structure IsLoop (g : Graph) (loop : List Node) : Prop where
  found : ∀ n ∈ loop, g.get? n.id = some n
  steps : loop.IsChain fun a b => g.Uses a.id b.id
  closed : loop.head? = loop.getLast?
  long : 2 ≤ loop.length

end Graph

/-! ## single nodes -/

theorem nodeFault_eq_none : nodeFault n = none ↔
    (∀ l e, n.op ≠ .unsupported l e) ∧ ∀ name s, n.op = .ref name s → n.inputs ≠ [] := by
  unfold nodeFault
  split
  case h_1 l e op => exact ⟨nofun, fun h => absurd op (h.1 l e)⟩
  case h_2 name s op =>
    rw [op]
    split
    case isTrue empty => exact ⟨nofun, fun h => absurd (isEmpty_iff.1 empty) (h.2 name s rfl)⟩
    case isFalse some =>
      exact ⟨fun _ => ⟨nofun, fun _ _ _ none => some (isEmpty_iff.2 none)⟩, fun _ => rfl⟩
  case h_3 proper other =>
    exact ⟨fun _ => ⟨proper, fun name s op => absurd op (other name s)⟩, fun _ => rfl⟩

theorem nodeFault_ne_cycle : nodeFault n ≠ some (.cycle labels) := by
  unfold nodeFault
  split
  · exact nofun
  · split <;> exact nofun
  · exact nofun

/-! ## the depth of the walk -/

section
variable {g : Graph} {path : List Node} {done : List NodeId}

theorem path_nil : Path g [] done := ⟨nofun, nodup_nil, nofun⟩

/-- the path is never longer than the graph has nodes, so a deeper walk finds nothing else -/
theorem walk_deeper (wf : g.WellFormed) (fuel : Nat) (along : Path g path [])
    (enough : g.size < fuel + path.length) (id : NodeId) (done : List NodeId) :
    walk g (fuel + 1) path id done = walk g fuel path id done := by
  induction fuel generalizing path id done with
  | zero =>
    have := along.length_le
    omega
  | succ fuel ih =>
    rw [walk, walk]
    cases found : g.get? id with
    | none => rfl
    | some n =>
      dsimp only
      by_cases loop : path.any (·.id == id) = true
      · rw [if_pos loop, if_pos loop]
      rw [if_neg loop, if_neg loop]
      obtain rfl := wf.id_eq found
      have deeper : walk g (fuel + 1) (n :: path) = walk g fuel (n :: path) := by
        funext id done
        refine ih (along.cons found loop not_mem_nil) ?_ id done
        rw [length_cons]
        omega
      rw [deeper]

end

/-! ## what the walk passes -/

section
variable {g : Graph} {S : NodeId → Prop}

theorem walkRoots_succeeds (wf : g.WellFormed) (h : Unspoilt g S)
    (rooted : ∀ r ∈ roots, ∀ n, r.node.bind g.get? = some n → S n.id ∧
      checkTargetShape r n = .ok ())
    (done : List NodeId) : walkRoots g roots done = .ok () := by
  induction roots generalizing done with
  | nil => rfl
  | cons r rest ih =>
    have others := ih fun r member => rooted r (.tail _ member)
    rw [walkRoots]
    cases found : r.node.bind g.get? with
    | none => exact others done
    | some n =>
      obtain ⟨own, shape⟩ := rooted r (.head _) n found
      obtain ⟨done', walked⟩ :=
        walk_succeeds wf h (g.size + 1) own (fun _ on => absurd on not_mem_nil) done
      dsimp only
      rw [walked]
      dsimp only
      rw [shape]
      exact others done'

theorem unspoilt_of_sorted (wf : g.WellFormed) (sorted : Sorted g done) :
    Unspoilt g (· ∈ done) := by
  have lower {a b : NodeId} (member : a ∈ done) (uses : g.Uses a b) :
      b ∈ done ∧ rank done b < rank done a := by
    obtain ⟨n, w, found, input, rfl⟩ := uses
    obtain ⟨m, source, -⟩ := wf.wire found input
    exact sorted.input member found input source
  refine ⟨fun {id n} member found => ?_, fun {id n} member found => ?_,
    fun {id} member around => ?_, fun member uses => (lower member uses).1⟩
  · obtain rfl := wf.id_eq found
    exact (sorted.node found member).1
  · obtain rfl := wf.id_eq found
    obtain ⟨ws, inputs, -⟩ := sorted.operands wf found member
    rw [inputs]
    intro missing
    obtain ⟨w, -, none⟩ := mem_map.1 missing
    cases none
  · have below : ∀ {b}, TransGen g.Uses id b → b ∈ done ∧ rank done b < rank done id := by
      intro b leads
      induction leads with
      | single uses => exact lower member uses
      | tail _ uses ih =>
        obtain ⟨there, less⟩ := lower ih.1 uses
        exact ⟨there, less.trans ih.2⟩
    exact lt_irrefl _ (below around).2

theorem Validate.Unspoilt.reachable (h : Unspoilt g S)
    (rooted : ∀ r ∈ roots, ∀ id, r.node = some id → S id) (there : g.Reachable roots id) :
    S id := by
  obtain ⟨r, member, start, node, leads⟩ := there
  induction leads with
  | refl => exact rooted r member start node
  | tail _ uses ih => exact h.uses ih uses

/-! ## cycles that the walk reports -/

/-- the path of a walk: nodes of the graph, the last first, each using the one after it -/
structure Trail (g : Graph) (S : NodeId → Prop) (path : List Node) (id : NodeId) : Prop where
  found : ∀ p ∈ path, g.get? p.id = some p
  inside : ∀ p ∈ path, S p.id
  steps : path.IsChain fun a b => g.Uses b.id a.id
  last : ∀ p ∈ path.head?, g.Uses p.id id

theorem Trail.cons (trail : Trail g S path n.id) (found : g.get? n.id = some n) (own : S n.id)
    {w : Wire} (input : some w ∈ n.inputs) : Trail g S (n :: path) w.source where
  found := forall_mem_cons.2 ⟨found, trail.found⟩
  inside := forall_mem_cons.2 ⟨own, trail.inside⟩
  steps := isChain_cons.2 ⟨trail.last, trail.steps⟩
  last p first := by
    cases Option.mem_some_iff.1 first
    exact ⟨n, w, found, input, rfl⟩

theorem exists_met (again : path.any (·.id == id) = true) :
    ∃ p rest, p.id = id ∧ path = path.takeWhile (·.id != id) ++ p :: rest := by
  induction path with
  | nil => cases again
  | cons q path ih =>
    by_cases same : q.id = id
    · exact ⟨q, path, same, by rw [takeWhile_cons_of_neg (by simpa using same)]; rfl⟩
    · rw [any_cons, beq_false_of_ne same, Bool.false_or] at again
      obtain ⟨p, rest, met, whole⟩ := ih again
      refine ⟨p, rest, met, ?_⟩
      rw [takeWhile_cons_of_pos (by simpa using same), cons_append, ← whole]

theorem Trail.loop (trail : Trail g S path n.id) (found : g.get? n.id = some n) (own : S n.id)
    (again : path.any (·.id == n.id) = true) :
    ∃ loop, g.IsLoop loop ∧ (∀ p ∈ loop, S p.id) ∧ loop.head? = some n ∧
      cycleLabels path n = loop.map Node.label := by
  obtain ⟨p, rest, met, whole⟩ := exists_met again
  generalize between : path.takeWhile (·.id != n.id) = part at whole
  obtain rfl : n = p := by
    have node := trail.found p (whole ▸ mem_append_cons_self)
    rw [met] at node
    exact Option.some.inj (found.symm.trans node)
  have members : ∀ p ∈ n :: (part.reverse ++ [n]), p = n ∨ p ∈ path := by
    intro p member
    rw [whole]
    simp only [mem_cons, mem_append, mem_reverse, not_mem_nil] at member ⊢
    tauto
  refine ⟨n :: (part.reverse ++ [n]), ⟨fun p member => ?_, ?_, ?_, ?_⟩, fun p member => ?_, rfl, ?_⟩
  · rcases members p member with rfl | on
    · exact found
    · exact trail.found p on
  · have chain : (n :: path).IsChain fun a b => g.Uses b.id a.id :=
      isChain_cons.2 ⟨trail.last, trail.steps⟩
    have start : n :: path = n :: (part ++ [n]) ++ rest := by
      rw [whole]
      simp
    have turned : n :: (part.reverse ++ [n]) = (n :: (part ++ [n])).reverse := by simp
    rw [turned]
    exact isChain_reverse.2 (start ▸ chain).left_of_append
  · exact (getLast?_concat (l := n :: part.reverse)).symm
  · simp
  · rcases members p member with rfl | on
    · exact own
    · exact trail.inside p on
  · rw [cycleLabels, between]
    simp

/-- what is listed when a walk fails for a cycle -/
def Listed (g : Graph) (S : NodeId → Prop) (place : Option (NodeId × String))
    (labels : List String) : Prop :=
  ∃ loop n, g.IsLoop loop ∧ (∀ p ∈ loop, S p.id) ∧ loop.head? = some n ∧
    place = some (n.id, n.kind) ∧ labels = loop.map Node.label

section
variable (wf : g.WellFormed) (uses : ∀ {a b}, S a → g.Uses a b → S b)
include wf uses

theorem walk_loop {fuel : Nat}
    (h : walk g fuel path id done = .error (.structural place (.cycle labels)))
    (trail : Trail g S path id) (own : S id) : Listed g S place labels := by
  induction fuel generalizing path id done with
  | zero => cases h
  | succ fuel ih =>
    obtain ⟨n, found, reported⟩ := walk_error h
    obtain rfl := wf.id_eq found
    rcases reported with ⟨again, listed⟩ | ⟨fault, faulty, listed⟩ | ⟨k, missing⟩ |
      ⟨w, done', input, failed⟩
    · cases listed
      obtain ⟨loop, isLoop, inside, first, labels⟩ := trail.loop found own again
      exact ⟨loop, n, isLoop, inside, first, rfl, labels⟩
    · cases listed
      exact absurd faulty nodeFault_ne_cycle
    · cases missing
    · exact ih failed (trail.cons found own input) (uses own ⟨n, w, found, input, rfl⟩)

theorem walkRoots_loop (rooted : ∀ r ∈ roots, ∀ n, r.node.bind g.get? = some n → S n.id)
    (h : walkRoots g roots done = .error (.structural place (.cycle labels))) :
    Listed g S place labels := by
  obtain ⟨r, member, n, found, ⟨want, other⟩ | ⟨done', failed⟩⟩ := walkRoots_error h
  · cases other
  · exact walk_loop wf uses failed ⟨nofun, nofun, .nil, nofun⟩ (rooted r member n found)

end

end

/-! ## validation -/

section
variable {g : Graph} {roots : List Root} {required : List String}

variable (wf : g.WellFormed)
include wf

theorem valid_of_validate (inside : ∀ r ∈ roots, ∀ id, r.node = some id → (g.get? id).isSome = true)
    (h : g.validate roots required = .ok ()) : g.Valid roots required := by
  obtain ⟨seen, targets, names, walked⟩ := validate_ok_iff.1 h
  obtain ⟨fits, distinct⟩ := validate_fits h
  obtain ⟨done, sorted, -, rooted⟩ := walkRoots_ok wf walked .nil
  have unspoilt := unspoilt_of_sorted wf sorted
  have there {id : NodeId} (reachable : g.Reachable roots id) : id ∈ done := by
    refine unspoilt.reachable (fun r member id node => ?_) reachable
    obtain ⟨n, found⟩ := Option.isSome_iff_exists.1 (inside r member id node)
    rw [← wf.id_eq found]
    exact (rooted r member n (by rw [node]; exact found)).1
  refine
    { named := fun r member => (fits r member).named
      free := fun r member => (fits r member).free
      distinct
      bound := fun r member => (fits r member).bound
      required := fun name asked => ?_
      literals := fun reachable found =>
        (nodeFault_eq_none.1 (unspoilt.sound (there reachable) found)).1
      resolved := fun reachable found =>
        (nodeFault_eq_none.1 (unspoilt.sound (there reachable) found)).2
      present := fun reachable found => unspoilt.present (there reachable) found
      acyclic := fun reachable => unspoilt.acyclic (there reachable)
      shapes := fun r member n want found fixed => validate_target wf h member found fixed }
  have known := checkRequired_ok.1 names name asked
  rw [mem_checkTargets targets] at known
  exact known.resolve_left not_mem_nil

theorem validate_of_valid (valid : g.Valid roots required) :
    g.validate roots required = .ok () := by
  have fits : ∀ r ∈ roots, r.Fits [] := fun r member =>
    ⟨valid.named r member, valid.free r member, not_mem_nil, valid.bound r member⟩
  obtain ⟨seen, targets⟩ := checkTargets_iff.2 ⟨fits, valid.distinct⟩
  have unspoilt : Unspoilt g (g.Reachable roots) :=
    { sound := fun reachable found =>
        nodeFault_eq_none.2 ⟨valid.literals reachable found, valid.resolved reachable found⟩
      present := fun reachable found => valid.present reachable found
      acyclic := fun reachable => valid.acyclic reachable
      uses := fun reachable uses => reachable.uses uses }
  refine validate_ok_iff.2 ⟨seen, targets, ?_,
    walkRoots_succeeds wf unspoilt (fun r member n found => ?_) []⟩
  · refine checkRequired_ok.2 fun name asked => ?_
    rw [mem_checkTargets targets]
    exact .inr (valid.required name asked)
  · obtain ⟨id, node, found'⟩ := Option.bind_eq_some_iff.1 found
    rw [wf.id_eq found']
    refine ⟨⟨r, member, id, node, .refl⟩, ?_⟩
    unfold checkTargetShape
    split
    case h_2 => rfl
    case h_1 want fixed =>
      refine if_neg fun differ => ?_
      rcases valid.shapes r member n want found fixed with same | none
      · exact differ.1 same
      · rw [none] at differ
        exact absurd differ.2 nofun

theorem validate_loop (h : g.validate roots required = .error (.structural place (.cycle labels))) :
    Listed g (g.Reachable roots) place labels := by
  rcases validate_error h with targets | ⟨t, missing⟩ | walked
  · obtain ⟨t, other | other | other | other⟩ := checkTargets_error targets <;> cases other
  · cases missing
  · refine walkRoots_loop wf (fun reachable uses => reachable.uses uses)
      (fun r member n found => ?_) walked
    obtain ⟨id, node, found⟩ := Option.bind_eq_some_iff.1 found
    rw [wf.id_eq found]
    exact ⟨r, member, id, node, .refl⟩

end

/-- **Validation is sound and complete.**  The bound on the depth of its walk is never met, however
references close cycles.  It passes a set of outputs of a graph just when nothing is wrong with it.
Where it reports a cycle, the labels are those of nodes in a row that the outputs lead to, each an
input of the one before it, from the node it blames back to that node. -/
theorem validate_exact {g : Graph} (built : g.Built) {roots : List Root}
    (inside : ∀ r ∈ roots, ∀ id, r.node = some id → (g.get? id).isSome = true)
    (required : List String) :
    (∀ fuel id done, g.size < fuel → walk g fuel [] id done = walk g (g.size + 1) [] id done) ∧
    (g.validate roots required = .ok () ↔ g.Valid roots required) ∧
    ∀ place labels, g.validate roots required = .error (.structural place (.cycle labels)) →
      ∃ loop n, g.IsLoop loop ∧ (∀ p ∈ loop, g.Reachable roots p.id) ∧ loop.head? = some n ∧
        place = some (n.id, n.kind) ∧ labels = loop.map Node.label := by
  have wf := built.wellFormed
  refine ⟨fun fuel id done enough => ?_, ⟨valid_of_validate wf inside, validate_of_valid wf⟩,
    fun place labels => validate_loop wf⟩
  obtain ⟨more, rfl⟩ := Nat.exists_eq_add_of_lt enough
  induction more with
  | zero => rfl
  | succ more ih =>
    rw [← ih (by omega)]
    exact walk_deeper wf _ path_nil (Nat.lt_succ_of_le (Nat.le_add_right _ _)) id done

/-- a reference to its own opposite -/
def ownOpposite : Graph :=
  (((Graph.initial.insert (.ref "x" .float) []).2.insert (.unary .neg) [.node 2]).2).resolve
    2 (some 3)

theorem built_ownOpposite : ownOpposite.Built := by
  refine .resolve 2 (some 3)
    (.insert _ _ (.insert _ _ .initial nofun rfl) nofun rfl) fun n found => ?_
  cases found
  exact ⟨"x", .float, rfl⟩

theorem validate_exact_opposite : ¬ ownOpposite.Valid [⟨"density", some 3⟩] [] ∧
    (∃ loop, ownOpposite.IsLoop loop ∧ loop.map Node.label = ["#3 (neg)", "#2 (ref)", "#3 (neg)"]) ∧
    Graph.initial.Valid [⟨"color", some 1⟩] ["color"] := by
  have refused : ownOpposite.validate [⟨"density", some 3⟩] [] =
      .error (.structural (some (3, "neg")) (.cycle ["#3 (neg)", "#2 (ref)", "#3 (neg)"])) := by
    decide +kernel
  have inside : ∀ r ∈ [(⟨"density", some 3⟩ : Root)], ∀ id, r.node = some id →
      (ownOpposite.get? id).isSome = true := by
    decide
  obtain ⟨-, exact, loops⟩ := validate_exact built_ownOpposite inside []
  obtain ⟨loop, -, isLoop, -, -, -, labels⟩ := loops _ _ refused
  refine ⟨fun valid => ?_, ⟨loop, isLoop, labels.symm⟩, ?_⟩
  · rw [exact.2 valid] at refused
    cases refused
  · exact (validate_exact .initial (by decide) ["color"]).2.1.1 (by decide)

end Terrain
