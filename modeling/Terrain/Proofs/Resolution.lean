import Terrain.Proofs.Drawn

/-!
# Documents are resolved exactly

A document is resolved if and only if every name that its outputs need has a node that can be built,
and no name needs itself.  What it draws cannot be refused for its structure, only for its set of
outputs, for shapes or for the configuration.

* `targets_perm`          no output is lost or repeated;
* `Graph.Uses`            inputs of nodes;
* `walk_succeeds`         validation passes what leads to no fault and no cycle;
* `roots_refused`         what compiling a drawn graph can be refused for;
* `resolution_exact`      resolution, what it draws, and what can still be wrong with it.
-/

namespace Terrain

open List

variable {roots : List Root} {e : CompileError}

/-! ## the order of outputs -/

namespace Document

/-- the outputs that are not well known, in the order they are drawn -/
def otherTargets (doc : Document) : List String :=
  ((doc.outputs.map (·.1)).filter (!wellKnown.contains ·)).mergeSort fun a b => decide (a ≤ b)

theorem targets_eq (doc : Document) :
    doc.targets = wellKnown.filter (doc.outputs.map (·.1)).contains ++ doc.otherTargets := rfl

section
variable {doc : Document} (maps : (doc.outputs.map (·.1)).Nodup)
include maps

theorem targets_perm : doc.targets.Perm (doc.outputs.map (·.1)) := by
  have known : (wellKnown.filter (doc.outputs.map (·.1)).contains).Perm
      ((doc.outputs.map (·.1)).filter wellKnown.contains) := by
    refine (perm_ext_iff_of_nodup ?_ (maps.filter _)).2 fun t => ?_
    · exact Nodup.filter _ (by decide)
    · rw [mem_filter, mem_filter, contains_iff_mem, contains_iff_mem, and_comm]
  rw [targets_eq]
  exact (known.append (mergeSort_perm _ _)).trans (filter_append_perm _ _)

theorem nodup_targets : doc.targets.Nodup := (targets_perm maps).nodup_iff.2 maps

theorem ascending_otherTargets : doc.otherTargets.Pairwise (· < ·) := by
  have sorted : doc.otherTargets.Pairwise (· ≤ ·) := pairwise_mergeSort_texts _
  have distinct : doc.otherTargets.Nodup :=
    (nodup_append.1 (targets_eq doc ▸ nodup_targets maps)).2.1
  refine (sorted.and distinct).imp fun {a b} both => ?_
  exact String.not_le.1 fun ge => both.2 (String.le_antisymm both.1 ge)

end

end Document

/-! ## validation -/

/-- a node has an input that comes from another -/
def Graph.Uses (g : Graph) (a b : NodeId) : Prop :=
  ∃ n w, g.get? a = some n ∧ some w ∈ n.inputs ∧ w.source = b

namespace Validate

open Relation (TransGen)

section
variable {g : Graph} {S : NodeId → Prop}

/-- nodes without a fault of their own, closed under inputs and without cycles -/
structure Unspoilt (g : Graph) (S : NodeId → Prop) : Prop where
  sound : ∀ {id n}, S id → g.get? id = some n → nodeFault n = none
  present : ∀ {id n}, S id → g.get? id = some n → none ∉ n.inputs
  acyclic : ∀ {id}, S id → ¬ TransGen g.Uses id id
  uses : ∀ {a b}, S a → g.Uses a b → S b

/-- nodes without a fault of their own, each over lower ones -/
def Clean (g : Graph) (S : NodeId → Prop) : Prop :=
  ∀ {id n}, S id → g.get? id = some n → nodeFault n = none ∧
    ∀ o ∈ n.inputs, ∃ w, o = some w ∧ w.source < id ∧ S w.source

theorem walkInputs_clean {step : NodeId → List NodeId → Except CompileError (List NodeId)}
    {n : Node} {i : Nat} {os : List (Option Wire)} {done : List NodeId}
    (each : ∀ o ∈ os, ∃ w, o = some w ∧ ∀ done, ∃ done', step w.source done = .ok done') :
    ∃ done', walkInputs step n i os done = .ok done' := by
  induction os generalizing i done with
  | nil => exact ⟨done, rfl⟩
  | cons o os ih =>
    obtain ⟨w, rfl, own⟩ := each o (.head _)
    obtain ⟨done', walked⟩ := own done
    unfold walkInputs
    rw [walked]
    exact ih fun o member => each o (.tail _ member)

theorem walk_succeeds (wf : g.WellFormed) (h : Unspoilt g S) (fuel : Nat) {path : List Node}
    {id : NodeId} (own : S id) (leads : ∀ p ∈ path, TransGen g.Uses p.id id) (done : List NodeId) :
    ∃ done', walk g fuel path id done = .ok done' := by
  induction fuel generalizing path id done with
  | zero => exact ⟨done, rfl⟩
  | succ fuel ih =>
    rw [walk]
    cases found : g.get? id with
    | none => exact ⟨done, rfl⟩
    | some n =>
      have new : ¬ path.any (·.id == id) = true := by
        intro on
        obtain ⟨p, on, same⟩ := any_eq_true.1 on
        have around := leads p on
        rw [beq_iff_eq.1 same] at around
        exact h.acyclic own around
      dsimp only
      rw [if_neg new]
      split
      · exact ⟨done, rfl⟩
      have inputs : ∃ done', walkInputs (walk g fuel (n :: path)) n 0 n.inputs
          done = .ok done' := by
        refine walkInputs_clean fun o member => ?_
        cases o with
        | none => exact absurd member (h.present own found)
        | some w =>
          have uses : g.Uses id w.source := ⟨n, w, found, member, rfl⟩
          refine ⟨w, rfl, ih (h.uses own uses) (forall_mem_cons.2 ⟨?_, fun p on => ?_⟩)⟩
          · rw [wf.id_eq found]
            exact .single uses
          · exact (leads p on).tail uses
      obtain ⟨done', walked⟩ := inputs
      rw [h.sound own found]
      dsimp only
      rw [walked]
      exact ⟨_, rfl⟩

/-- inputs are lower, so no way through them comes back -/
theorem Clean.unspoilt (clean : Clean g S) : Unspoilt g S := by
  have lower {a b : NodeId} (own : S a) (uses : g.Uses a b) : b < a ∧ S b := by
    obtain ⟨n, w, found, input, rfl⟩ := uses
    obtain ⟨_, same, below⟩ := (clean own found).2 _ input
    cases same
    exact below
  refine ⟨fun own found => (clean own found).1, fun own found missing => ?_,
    fun {id} own around => ?_, fun own uses => (lower own uses).2⟩
  · obtain ⟨w, none, -⟩ := (clean own found).2 _ missing
    cases none
  · have below : ∀ {b}, TransGen g.Uses id b → b < id ∧ S b := by
      intro b leads
      induction leads with
      | single uses => exact lower own uses
      | tail _ uses ih => exact ⟨lt_trans (lower ih.2 uses).1 ih.1, (lower ih.2 uses).2⟩
    exact lt_irrefl _ (below around).1

theorem walkRoots_clean (wf : g.WellFormed) (clean : Clean g S)
    (rooted : ∀ r ∈ roots, ∀ id, r.node = some id → S id) {done : List NodeId}
    (h : walkRoots g roots done = .error e) : e.SparesGraph := by
  obtain ⟨r, member, n, found, ⟨want, rfl⟩ | ⟨done', failed⟩⟩ := walkRoots_error h
  · exact .inl rfl
  · obtain ⟨id, node, there⟩ := Option.bind_eq_some_iff.1 found
    have own : S n.id := by
      rw [wf.id_eq there]
      exact rooted r member id node
    obtain ⟨done, walked⟩ :=
      walk_succeeds wf clean.unspoilt (g.size + 1) own (forall_mem_nil _) done'
    cases walked.symm.trans failed

theorem checkTargets_refused {seen : List String}
    (bound : ∀ r ∈ roots, r.node.isSome = true) (distinct : (roots.map Root.target).Nodup)
    (new : ∀ r ∈ roots, r.target ∉ seen) (h : checkTargets seen roots = .error e) :
    (∃ t, e = .structural none (.reservedOutput t)) ∨ e.SparesGraph := by
  induction roots generalizing seen with
  | nil => cases h
  | cons r rest ih =>
    obtain ⟨first, others⟩ := nodup_cons.1 distinct
    rcases checkTargets_cases r rest with ⟨e', refused, reason⟩ | fits
    · cases h.symm.trans refused
      rcases reason with rfl | rfl | ⟨-, old⟩ | ⟨-, unbound⟩
      · exact .inr (.inr rfl)
      · exact .inl ⟨_, rfl⟩
      · exact absurd old (new r (.head _))
      · have there := bound r (.head _)
        rw [unbound] at there
        cases there
    rw [checkTargets_cons fits] at h
    refine ih (fun r member => bound r (.tail _ member)) others (fun r' member seen' => ?_) h
    rcases mem_cons.1 seen' with same | before
    · exact first (same ▸ mem_map_of_mem member)
    · exact new r' (.tail _ member) before

theorem checkTargets_unplaced {seen : List String} (h : checkTargets seen roots = .error e) :
    (∃ fault, e = .structural none fault) ∨ e.SparesGraph := by
  obtain ⟨t, rfl | rfl | rfl | rfl⟩ := checkTargets_error h
  · exact .inr (.inr rfl)
  · exact .inl ⟨_, rfl⟩
  · exact .inl ⟨_, rfl⟩
  · exact .inl ⟨_, rfl⟩

end

end Validate

theorem validate_cases {g : Graph} (wf : g.WellFormed) {S : NodeId → Prop}
    (clean : Validate.Clean g S) (rooted : ∀ r ∈ roots, ∃ id, r.node = some id ∧ S id)
    {required : List String} (h : g.validate roots required = .error e) :
    Validate.checkTargets [] roots = .error e ∨ (∃ t, e = .structural none (.missingOutput t)) ∨
      e.SparesGraph := by
  refine (validate_error h).imp_right (.imp_right fun walked => ?_)
  refine Validate.walkRoots_clean wf clean (fun r member id node => ?_) walked
  obtain ⟨id', node', own⟩ := rooted r member
  cases node.symm.trans node'
  exact own

theorem validate_refused {g : Graph} (wf : g.WellFormed) {S : NodeId → Prop}
    (clean : Validate.Clean g S) (rooted : ∀ r ∈ roots, ∃ id, r.node = some id ∧ S id)
    (distinct : (roots.map Root.target).Nodup) {required : List String}
    (h : g.validate roots required = .error e) :
    (∃ t, e = .structural none (.reservedOutput t)) ∨
      (∃ t, e = .structural none (.missingOutput t)) ∨ e.SparesGraph := by
  rcases validate_cases wf clean rooted h with targets | others
  · refine (Validate.checkTargets_refused (fun r member => ?_) distinct
      (fun _ _ => not_mem_nil) targets).imp_right .inr
    obtain ⟨id, node, -⟩ := rooted r member
    rw [node]
    rfl
  · exact .inr others

/-! ## documents -/

namespace Document

open Validate

section
variable {doc : Document} {g : Graph}

theorem makes_resolved (doc : Document) : doc.Makes fun op => IsResolved op = true where
  literal _ := rfl
  node _ found made := (sound_of_recipe? found).resolved made

theorem nodeFault_of_resolved {n : Node} (h : IsResolved n.op = true) : nodeFault n = none := by
  unfold nodeFault
  split
  case h_1 op => rw [op] at h; cases h
  case h_2 op => rw [op] at h; cases h
  case h_3 => rfl

theorem clean_roots (doc : Document) (built : g.Built) :
    Clean (doc.roots g).2 (Added g (doc.roots g).2) := by
  obtain ⟨⟨b, raised, graph⟩, -, -⟩ := roots_raised doc.makes_resolved built
  rw [← graph]
  intro id n added found
  rcases added with rfl | ⟨new, -⟩
  · cases found.symm.trans (get?_positionId raised.built)
    exact ⟨rfl, nofun⟩
  · exact ⟨nodeFault_of_resolved (raised.ops new found), raised.inputs new found⟩

theorem roots_succeeds (h : doc.Resolvable) (g : Graph) : ∃ roots, (doc.roots g).1 = .ok roots := by
  have each : Succeeds (doc.targets.mapM (buildRoot doc)) := by
    refine succeeds_mapM fun t member => ?_
    obtain ⟨name, bound⟩ := doc.bound_targets t member
    unfold buildRoot
    rw [bound]
    have resolved : Succeeds (doc.resolve (doc.nodes.length + 1) [] name) := by
      refine resolve_succeeds h _ (fun node => ?_) isPath_nil (lt_add_one _)
      exact ⟨.output bound node, nofun⟩
    exact resolved.bind fun id => succeeds_pure _
  obtain ⟨roots, b, ran⟩ := each ⟨g, []⟩
  exact ⟨roots, congrArg Prod.fst ran⟩

theorem resolve_deep {fuel : Nat} (deep : doc.nodes.length < fuel) (name : String) :
    doc.resolve fuel [] name = doc.resolve (doc.nodes.length + 1) [] name := by
  induction fuel with
  | zero => cases deep
  | succ fuel ih =>
    by_cases last : doc.nodes.length = fuel
    · rw [last]
    · have deep : doc.nodes.length < fuel := by omega
      rw [← ih deep]
      exact resolve_deeper fuel isPath_nil deep name

theorem roots_refused (built : g.Built) (maps : (doc.outputs.map (·.1)).Nodup)
    (rooted : (doc.roots g).1 = .ok roots) (targets : roots.map Root.target = doc.targets)
    {o : Compile.Options} {f : Failure} (h : (doc.roots g).2.compile roots o = .error f) :
    ∃ e, f = .refused e ∧ ((∃ t, e = .structural none (.reservedOutput t)) ∨
      (∃ t, e = .structural none (.missingOutput t)) ∨ e.blame = .shape ∨
        e.blame = .configuration) := by
  have added := (roots_raised doc.makes_resolved built).2.1 roots rooted
  have grown := doc.built_roots built
  obtain ⟨e, rfl, invalid | spares⟩ := compile_refused grown o (there_roots built rooted) h
  · refine ⟨e, rfl, validate_refused grown.wellFormed (doc.clean_roots built) added ?_ invalid⟩
    rw [targets]
    exact nodup_targets maps
  · exact ⟨e, rfl, .inr (.inr spares)⟩

/-- compiling the outputs of a document is never refused for the place of a node -/
theorem roots_unplaced (built : g.Built) (rooted : (doc.roots g).1 = .ok roots)
    {o : Compile.Options} {f : Failure} (h : (doc.roots g).2.compile roots o = .error f) :
    ∃ e, f = .refused e ∧ ((∃ fault, e = .structural none fault) ∨ e.SparesGraph) := by
  have added := (roots_raised doc.makes_resolved built).2.1 roots rooted
  have grown := doc.built_roots built
  obtain ⟨e, rfl, invalid | spares⟩ := compile_refused grown o (there_roots built rooted) h
  · refine ⟨e, rfl, ?_⟩
    rcases validate_cases grown.wellFormed (doc.clean_roots built) added invalid with
      targets | ⟨t, missing⟩ | spares
    · exact checkTargets_unplaced targets
    · exact .inl ⟨_, missing⟩
    · exact .inr spares
  · exact ⟨e, rfl, .inr spares⟩

end

/-- **Resolution is exact.**  It ends by itself, the bound on its depth apart; it succeeds if and
only if all that the outputs need can be built.  Then every needed name has one node, the outputs
are in order, the graph has no fault, and compiling it can only find fault with the set of outputs,
with shapes or with the configuration. -/
theorem resolution_exact (doc : Document) {g : Graph} (built : g.Built)
    (maps : (doc.outputs.map (·.1)).Nodup) :
    (∀ fuel name, doc.nodes.length < fuel →
      doc.resolve fuel [] name = doc.resolve (doc.nodes.length + 1) [] name) ∧
    ((∃ roots, (doc.roots g).1 = .ok roots) ↔ doc.Resolvable) ∧
    ∀ roots, (doc.roots g).1 = .ok roots →
      (∃ node, doc.Drawn g (doc.roots g).2 node ∧
        roots = doc.targets.map fun t => ⟨t, (doc.outputs.lookup t).map node⟩) ∧
      (∃ others, roots.map Root.target = wellKnown.filter (doc.outputs.map (·.1)).contains ++
        others ∧ others.Pairwise (· < ·)) ∧
      (roots.map Root.target).Perm (doc.outputs.map (·.1)) ∧
      Clean (doc.roots g).2 (Added g (doc.roots g).2) ∧
      ∀ o f, (doc.roots g).2.compile roots o = .error f → ∃ e, f = .refused e ∧
        ((∃ t, e = .structural none (.reservedOutput t)) ∨
          (∃ t, e = .structural none (.missingOutput t)) ∨
          e.blame = .shape ∨ e.blame = .configuration) := by
  refine ⟨fun fuel name deep => resolve_deep deep name,
    ⟨fun ⟨roots, rooted⟩ => ?_, fun h => roots_succeeds h g⟩, fun roots rooted => ?_⟩
  · obtain ⟨node, drawn, -⟩ := roots_drawn built rooted
    exact drawn.resolvable
  · obtain ⟨node, drawn, made⟩ := roots_drawn built rooted
    have targets : roots.map Root.target = doc.targets := by
      rw [made, List.map_map]
      exact List.map_id _
    refine ⟨⟨node, drawn, made⟩, ⟨doc.otherTargets, targets, ascending_otherTargets maps⟩, ?_,
      doc.clean_roots built, fun o f failed => roots_refused built maps rooted targets failed⟩
    rw [targets]
    exact targets_perm maps

/-- a node that two outputs share, and one that nothing needs, with no operation and
itself as input -/
def sharedDocument : Document where
  name := ""
  parameters := []
  nodes := [("loose", { NodeSpec.empty with inputs := [.reference "loose"] }),
    ("ground", { NodeSpec.empty with op := "length", inputs := [.reference "position"] }),
    ("twice",
      { NodeSpec.empty with op := "add", inputs := [.reference "ground", .reference "ground"] })]
  outputs := [("wet", "twice"), ("dry", "twice"), ("density", "ground")]

/-- the same, with an output that needs the other node -/
def loopingDocument : Document := { sharedDocument with outputs := [("density", "loose")] }

/-- the shared node is resolved, with outputs in order; the node that needs itself is not -/
theorem resolution_exact_shared :
    sharedDocument.Resolvable ∧ ¬ loopingDocument.Resolvable ∧
      (sharedDocument.roots .initial).1 = .ok [⟨"density", some 2⟩, ⟨"dry", some 3⟩,
        ⟨"wet", some 3⟩] := by
  have order : sharedDocument.targets = ["density", "dry", "wet"] := by
    simp [targets, sharedDocument, wellKnown, List.mergeSort, List.MergeSort.Internal.splitInTwo]
  have rooted : (sharedDocument.roots .initial).1 =
      .ok [⟨"density", some 2⟩, ⟨"dry", some 3⟩, ⟨"wet", some 3⟩] := by
    unfold roots
    rw [order]
    decide
  refine ⟨?_, fun h => ?_, rooted⟩
  · exact (resolution_exact sharedDocument .initial (by decide)).2.1.1 ⟨_, rooted⟩
  · obtain ⟨roots, made⟩ := (resolution_exact loopingDocument .initial (by decide)).2.1.2 h
    have failed : (loopingDocument.roots .initial).1.isOk = false := by decide
    rw [made] at failed
    cases failed

end Document

end Terrain
