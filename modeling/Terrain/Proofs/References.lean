import Mathlib.Data.List.Perm.Subperm
import Mathlib.Logic.Relation
import Terrain.Proofs.Documents

/-!
# What the names of a document lead to

Resolving a name walks depth first over the references of nodes.  Names on the path are being built,
names in the table have been built, and the table lists a name after everything that it refers to.

* `Refers`, `Needed`     references, and the names that outputs need through them;
* `Specifies`            the node of a name can be built over the nodes of its inputs;
* `Resolvable`           so can all needed nodes, and none of them needs itself;
* `resolve_succeeds`     resolving a name never fails on a document that is resolvable;
* `resolve_deeper`       the bound on its depth is never met.
-/

namespace Terrain.Document

open List

open Relation (TransGen)

variable {path : List String} {name : String}

/-! ## references -/

/-- a literal that is a value, or a name -/
def Input.Converts : Input → Prop
  | .reference _ => True
  | .literal _ s => ∃ v, s.toValue = .ok v
  | .unreadable _ => False

section
variable (doc : Document)

def Refers (a b : String) : Prop :=
  b ≠ positionName ∧ ∃ spec, doc.nodes.lookup a = some spec ∧ Input.reference b ∈ spec.inputs

inductive Needed : String → Prop
  | output {target name : String} (bound : doc.outputs.lookup target = some name)
      (other : name ≠ positionName) : Needed name
  | input {a b : String} (needed : Needed a) (refers : doc.Refers a b) : Needed b

/-- a name has a node, its operation is known and takes as many inputs, the literals are values, and
the attributes are accepted -/
structure Specifies (name : String) (spec : NodeSpec) (op : Op) : Prop where
  listed : doc.nodes.lookup name = some spec
  converts : ∀ i ∈ spec.inputs, i.Converts
  made : ∃ recipe, recipe? spec.op = some recipe ∧ spec.inputs.length = recipe.inputs ∧
    recipe.make spec = .ok op

structure Resolvable : Prop where
  specified : ∀ {name}, doc.Needed name → ∃ spec op, doc.Specifies name spec op
  acyclic : ∀ {name}, doc.Needed name → ¬ TransGen doc.Refers name name

/-! ## one name -/

/-- builds the node of a name that is not built yet -/
def buildNode (visit : String → BuildM NodeId) (path : List String) (name : String) :
    BuildM NodeId :=
  match doc.nodes.lookup name with
  | none => throw (.missing path.getLast? name)
  | some spec =>
    match recipe? spec.op with
    | none => throw (.unknownOp name spec.op)
    | some recipe =>
      if spec.inputs.length ≠ recipe.inputs then
        throw (.inputCount name spec.op recipe.inputs spec.inputs.length)
      else spec.inputs.mapM (buildInput visit name) >>= fun ids =>
        match recipe.make spec with
        | .error fault => throw (.refusedNode name fault)
        | .ok op => build op ids >>= fun id => remember name id >>= fun _ => pure id

end

variable {doc : Document}

theorem resolve_succ (fuel : Nat) (path : List String) (name : String) :
    doc.resolve (fuel + 1) path name =
      if name = positionName then pure Graph.positionId
      else if path.contains name then throw (.cycle (path.dropWhile (· ≠ name) ++ [name]))
      else get >>= fun b =>
        match b.built.lookup name with
        | some id => pure id
        | none => doc.buildNode (doc.resolve fuel (path ++ [name])) path name := by
  rw [resolve]
  by_cases position : name = positionName
  · rw [if_pos position, if_pos position]
  rw [if_neg position, if_neg position]
  by_cases loop : path.contains name = true
  · rw [if_pos loop, if_pos loop]
    rfl
  dsimp only
  rw [if_neg loop, if_neg loop]
  refine congrArg _ (funext fun b => ?_)
  cases b.built.lookup name with
  | some id => rfl
  | none =>
    unfold buildNode
    cases doc.nodes.lookup name with
    | none => rfl
    | some spec =>
      dsimp only
      cases recipe? spec.op with
      | none => rfl
      | some recipe =>
        dsimp only
        by_cases count : spec.inputs.length ≠ recipe.inputs
        · rw [if_pos count, if_pos count]
          rfl
        · exact (if_neg count).trans (if_neg count).symm

/-! ## the depth of the walk -/

/-- names that are being built: each has a node, and none is there twice -/
structure IsPath (doc : Document) (path : List String) : Prop where
  nodup : path.Nodup
  listed : ∀ a ∈ path, (doc.nodes.lookup a).isSome = true

theorem isPath_nil : doc.IsPath [] := ⟨.nil, nofun⟩

theorem IsPath.append (h : doc.IsPath path) {spec : NodeSpec} (new : name ∉ path)
    (listed : doc.nodes.lookup name = some spec) :
    doc.IsPath (path ++ [name]) where
  nodup := nodup_append.2 ⟨h.nodup, nodup_singleton _, fun a member b single same =>
    new (mem_singleton.1 single ▸ same ▸ member)⟩
  listed := by
    refine forall_mem_append.2 ⟨h.listed, forall_mem_singleton.2 ?_⟩
    rw [listed]
    rfl

theorem IsPath.length_le (h : doc.IsPath path) : path.length ≤ doc.nodes.length := by
  have subset : path ⊆ doc.nodes.map Prod.fst := fun a member => isSome_lookup.1 (h.listed a member)
  have le := (subperm_of_subset h.nodup subset).length_le
  rwa [length_map] at le

theorem buildNode_congr {visit visit' : String → BuildM NodeId}
    (same : ∀ spec, doc.nodes.lookup name = some spec → visit = visit') :
    doc.buildNode visit path name = doc.buildNode visit' path name := by
  cases listed : doc.nodes.lookup name with
  | none =>
    unfold buildNode
    rw [listed]
  | some spec => rw [same spec listed]

/-- the path is never longer than the table of nodes, so a deeper walk finds nothing else -/
theorem resolve_deeper (fuel : Nat) (isPath : doc.IsPath path)
    (enough : doc.nodes.length < fuel + path.length) (name : String) :
    doc.resolve (fuel + 1) path name = doc.resolve fuel path name := by
  induction fuel generalizing path name with
  | zero =>
    have := isPath.length_le
    omega
  | succ fuel ih =>
    rw [resolve_succ, resolve_succ]
    by_cases position : name = positionName
    · rw [if_pos position, if_pos position]
    rw [if_neg position, if_neg position]
    by_cases loop : path.contains name = true
    · rw [if_pos loop, if_pos loop]
    rw [if_neg loop, if_neg loop]
    have visits : doc.buildNode (doc.resolve (fuel + 1) (path ++ [name])) path name =
        doc.buildNode (doc.resolve fuel (path ++ [name])) path name := by
      refine buildNode_congr fun spec listed => funext fun other => ?_
      refine ih (isPath.append (fun member => loop (contains_iff_mem.2 member)) listed) ?_ other
      rw [length_append]
      show _ < fuel + (path.length + 1)
      omega
    rw [visits]

/-! ## success -/

section
variable {α β ι : Type}

/-- a step that succeeds wherever it starts -/
def Succeeds (m : BuildM α) : Prop := ∀ b, ∃ a b', outcome m b = (.ok a, b')

theorem succeeds_pure (a : α) : Succeeds (pure a : BuildM α) := fun b => ⟨a, b, rfl⟩

theorem Succeeds.bind {m : BuildM α} {f : α → BuildM β} (h : Succeeds m)
    (next : ∀ a, Succeeds (f a)) : Succeeds (m >>= f) := by
  intro b
  obtain ⟨a, d, first⟩ := h b
  obtain ⟨y, b', second⟩ := next a d
  exact ⟨y, b', outcome_bind_ok.2 ⟨a, d, first, second⟩⟩

theorem succeeds_mapM {f : ι → BuildM α} {l : List ι} (each : ∀ i ∈ l, Succeeds (f i)) :
    Succeeds (l.mapM f) := by
  induction l with
  | nil => exact succeeds_pure []
  | cons i l ih =>
    rw [mapM_cons]
    refine (each i (.head _)).bind fun a => ?_
    exact (ih fun j member => each j (.tail _ member)).bind fun as => succeeds_pure _

end

theorem succeeds_buildNode {visit : String → BuildM NodeId}
    {spec : NodeSpec} {op : Op} (specified : doc.Specifies name spec op)
    (visits : ∀ other, Input.reference other ∈ spec.inputs → Succeeds (visit other)) :
    Succeeds (doc.buildNode visit path name) := by
  obtain ⟨recipe, known, count, made⟩ := specified.made
  have inputs : Succeeds (spec.inputs.mapM (buildInput visit name)) := by
    refine succeeds_mapM fun i member => ?_
    have converts := specified.converts i member
    cases i with
    | reference other => exact visits other member
    | literal line s =>
      obtain ⟨v, value⟩ := converts
      unfold buildInput
      dsimp only
      rw [value]
      exact fun b => ⟨_, _, outcome_build _ _ b⟩
    | unreadable line => exact converts.elim
  unfold buildNode
  rw [specified.listed]
  dsimp only
  rw [known]
  dsimp only
  rw [if_neg (fun differ => differ count)]
  refine inputs.bind fun ids => ?_
  rw [made]
  exact Succeeds.bind (fun b => ⟨_, _, outcome_build _ _ b⟩) fun id b => ⟨_, _, rfl⟩

/-- a name that is needed is resolved, wherever the walk has come to: it is not on the path, since
every name on the path needs it -/
theorem resolve_succeeds (h : doc.Resolvable) (fuel : Nat)
    (needed : name ≠ positionName → doc.Needed name ∧ ∀ a ∈ path, TransGen doc.Refers a name)
    (isPath : doc.IsPath path) (enough : doc.nodes.length < fuel + path.length) :
    Succeeds (doc.resolve fuel path name) := by
  induction fuel generalizing path name with
  | zero =>
    have := isPath.length_le
    omega
  | succ fuel ih =>
    rw [resolve_succ]
    by_cases position : name = positionName
    · rw [if_pos position]
      exact succeeds_pure _
    rw [if_neg position]
    obtain ⟨own, leads⟩ := needed position
    have new : name ∉ path := fun member => h.acyclic own (leads name member)
    rw [if_neg fun member => new (contains_iff_mem.1 member)]
    obtain ⟨spec, op, specified⟩ := h.specified own
    have visits : Succeeds (doc.buildNode (doc.resolve fuel (path ++ [name])) path name) := by
      refine succeeds_buildNode specified fun other input => ?_
      refine ih (fun node => ?_) (isPath.append new specified.listed) ?_
      · have refers : doc.Refers name other := ⟨node, spec, specified.listed, input⟩
        refine ⟨.input own refers, forall_mem_append.2 ⟨fun a member => ?_, ?_⟩⟩
        · exact (leads a member).tail refers
        · exact forall_mem_singleton.2 (.single refers)
      · rw [length_append]
        show _ < fuel + (path.length + 1)
        omega
    intro b
    cases known : b.built.lookup name with
    | some id =>
      refine ⟨id, b, outcome_bind_ok.2 ⟨b, b, rfl, ?_⟩⟩
      rw [known]
      rfl
    | none =>
      obtain ⟨id, b', built⟩ := visits b
      refine ⟨id, b', outcome_bind_ok.2 ⟨b, b, rfl, ?_⟩⟩
      rw [known]
      exact built

end Terrain.Document
