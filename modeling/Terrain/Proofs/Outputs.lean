import Terrain.Proofs.Placement

/-!
# What a document gives

A document gives a program on a graph, under options that have all values.  It gives one program on
every graph, as long as the options find the same values for names and miss the same outputs.

* `targets_of_roots`   the roots of a document are its targets;
* `Gives`              a document compiles to a program;
* `gives_iff`          on one graph as on another;
* `compile_ok_iff`     compiling uses the values of the document where the options bind none.
-/

namespace Terrain

variable {doc : Document} {g : Graph} {o : Options} {p : Program}

/-! ## the outputs of a document -/

namespace Document

open Compile Validate

theorem mapM_buildRoot {targets : List String} {b b' : Builder} {roots : List Root}
    (h : outcome (targets.mapM (buildRoot doc)) b = (.ok roots, b')) :
    roots.map Root.target = targets := by
  induction targets generalizing b roots with
  | nil =>
    cases h
    rfl
  | cons target targets ih =>
    obtain ⟨root, rest, d, first, others, rfl⟩ := outcome_mapM_cons.1 h
    obtain ⟨id, e, -, made⟩ := outcome_bind_ok.1 first
    cases made
    exact congrArg (target :: ·) (ih others)

theorem targets_of_roots {roots : List Root}
    (h : (doc.roots g).1 = .ok roots) : roots.map Root.target = doc.targets :=
  mapM_buildRoot (Prod.ext h rfl)

/-- a document compiles to a program on a graph, under options that have all values -/
def Gives (doc : Document) (g : Graph) (o : Options) (p : Program) : Prop :=
  ∃ roots, (doc.roots g).1 = .ok roots ∧ (doc.roots g).2.compile roots o = .ok p

theorem Gives.required (h : doc.Gives g o p) : ∀ name ∈ o.requiredOutputs, name ∈ doc.targets := by
  obtain ⟨roots, rooted, compiled⟩ := h
  obtain ⟨c, parsed, -⟩ := Compile.compile_ok_iff.1 compiled
  obtain ⟨-, valid, -⟩ := parsed_ok parsed
  obtain ⟨seen, targets, named, -⟩ := validate_ok_iff.1 valid
  intro name member
  have there := checkRequired_ok.1 named name member
  rw [mem_checkTargets targets, targets_of_roots rooted] at there
  exact there.resolve_left List.not_mem_nil

theorem ok_iff_of_sameProgram {ε ε' : Type} {F : ε → ε' → Prop} {x : Except ε Program}
    {y : Except ε' Program} (same : SameProgram F x y) (p : Program) : x = .ok p ↔ y = .ok p := by
  cases x with
  | error e =>
    cases y with
    | error e' => simp
    | ok q => exact same.elim
  | ok q =>
    cases y with
    | error e' => exact same.elim
    | ok q' =>
      obtain rfl : q = q' := same
      simp

theorem gives_initial {h : Graph} (built : h.Built) {o' : Options}
    (bindings : ∀ name, o.bindings.lookup name = o'.bindings.lookup name)
    (workgroup : o'.workgroup = o.workgroup)
    (required : ∀ roots seen, (doc.roots .initial).1 = .ok roots →
      checkTargets [] roots = .ok seen →
      checkRequired seen o.requiredOutputs = checkRequired seen o'.requiredOutputs)
    : doc.Gives .initial o p ↔ doc.Gives h o' p := by
  unfold Gives
  rcases doc.compile_moved built bindings workgroup required with
    ⟨e, left, right⟩ | ⟨roots, roots', left, right, same⟩
  · rw [left, right]
    constructor <;> rintro ⟨roots, failed, -⟩ <;> cases failed
  · rw [left, right]
    have programs := ok_iff_of_sameProgram same p
    constructor
    · rintro ⟨_, eq, compiled⟩
      cases eq
      exact ⟨roots', rfl, programs.1 compiled⟩
    · rintro ⟨_, eq, compiled⟩
      cases eq
      exact ⟨roots, rfl, programs.2 compiled⟩

theorem gives_iff {h : Graph} (built : g.Built) (built' : h.Built) {o' : Options}
    (bindings : ∀ name, o.bindings.lookup name = o'.bindings.lookup name)
    (workgroup : o'.workgroup = o.workgroup)
    (required : (∀ name ∈ o.requiredOutputs, name ∈ doc.targets) ↔
      ∀ name ∈ o'.requiredOutputs, name ∈ doc.targets) :
    doc.Gives g o p ↔ doc.Gives h o' p := by
  by_cases all : ∀ name ∈ o.requiredOutputs, name ∈ doc.targets
  · have passes {o : Options} (all : ∀ name ∈ o.requiredOutputs, name ∈ doc.targets)
        (roots : List Root) (seen : List String) (rooted : (doc.roots .initial).1 = .ok roots)
        (targets : checkTargets [] roots = .ok seen) :
            checkRequired seen o.requiredOutputs = .ok () := by
      refine checkRequired_ok.2 fun name member => ?_
      rw [mem_checkTargets targets, targets_of_roots rooted]
      exact .inr (all name member)
    have first : doc.Gives .initial o p ↔ doc.Gives g o p :=
      gives_initial built (fun _ => rfl) rfl fun _ _ _ _ => rfl
    have second : doc.Gives .initial o p ↔ doc.Gives h o' p := by
      refine gives_initial built' bindings workgroup fun roots seen rooted targets => ?_
      rw [passes all roots seen rooted targets, passes (required.1 all) roots seen rooted targets]
    exact first.symm.trans second
  · -- an output is missing on both graphs
    constructor
    · intro given
      exact absurd given.required all
    · intro given
      exact absurd (required.2 given.required) all

theorem compile_ok_iff :
    (doc.compile g o).1 = .ok p ↔ ∃ values, doc.values = .ok values ∧
      doc.Gives g { o with bindings := o.bindings ++ values } p := by
  constructor
  · intro h
    rcases compile_cases h with ⟨e, -, failed⟩ | ⟨name, e, failed⟩ |
      ⟨roots, values, rooted, valued, same⟩
    · cases failed
    · cases failed
    · exact ⟨values, valued, roots, rooted, mapError_eq_ok.1 same.symm⟩
  · rintro ⟨values, valued, roots, rooted, compiled⟩
    rw [compile_eq rooted valued]
    exact mapError_eq_ok.2 compiled

end Document

end Terrain
