import Terrain.Proofs.Documents
import Terrain.Proofs.Renaming

/-!
# Documents compile alike on every graph

A document is built behind the nodes that a graph has already, so its nodes get other numbers on
another graph.  Neither the numbers nor the nodes that were there show in its program.

* `Document.Moved`        one building is the other with all numbers moved up;
* `parallel_resolve`      a name is resolved to the moved node, or fails in both for one reason;
* `covers_moved`          the graphs are the same up to the move, as far as the document is
                          concerned;
* `Document.compile_moved`  so a document compiles to the same program, or fails, on both.
-/

namespace Terrain

open List

/-- numbers behind that of the world position, moved up -/
def movedBy (k id : Nat) : Nat := if id ≤ 1 then id else id + k

theorem movedBy_inj {k a b : Nat} (h : movedBy k a = movedBy k b) : a = b := by
  unfold movedBy at h
  split at h <;> split at h <;> omega

def Node.moved (k : Nat) (n : Node) : Node :=
  ⟨movedBy k n.id, n.op, n.inputs.map (·.map (Wire.renamed (movedBy k)))⟩

theorem Node.shape_moved (k : Nat) (n : Node) : (n.moved k).shape = n.shape := by
  rw [← shape_bare (n.moved k), ← shape_bare n]
  congr 1
  unfold Node.bare Node.moved
  dsimp only
  rw [map_map]
  congr 1
  exact map_congr_left fun x _ => by cases x <;> rfl

namespace Document

/-! ## building -/

/-- one building is the other with numbers moved up: it has as many nodes more, and each node has a
counterpart.  Nodes are over nodes before them. -/
structure Moved (k : Nat) (b b' : Builder) : Prop where
  nonempty : 1 ≤ b.graph.size
  size : b'.graph.size = b.graph.size + k
  names : b'.built = b.built.map fun p => (p.1, movedBy k p.2)
  known : ∀ p ∈ b.built, 1 ≤ p.2 ∧ p.2 ≤ b.graph.size
  nodes : ∀ {id n}, b.graph.get? id = some n → b'.graph.get? (movedBy k id) = some (n.moved k)
  own : ∀ {id n}, b.graph.get? id = some n → n.id = id
  below : ∀ {id n w}, b.graph.get? id = some n → some w ∈ n.inputs → 1 ≤ w.source ∧ w.source < id

/-- both succeeded with related results, or both failed for one reason -/
def SameResult {α : Type} (Q : α → α → Prop) :
    Except DocumentError α → Except DocumentError α → Prop
  | .ok a, .ok a' => Q a a'
  | .error e, .error e' => e = e'
  | _, _ => False

section
variable {α β : Type} {k : Nat} {b b' : Builder}

/-- two steps go the same way from two buildings of which one is the other moved up -/
structure Parallel (k : Nat) (m m' : BuildM α) (b b' : Builder) (Q : α → α → Graph → Prop) :
    Prop where
  moved : Moved k (outcome m b).2 (outcome m' b').2
  grows : b.graph.size ≤ (outcome m b).2.graph.size
  result : SameResult (fun a a' => Q a a' (outcome m b).2.graph) (outcome m b).1 (outcome m' b').1

theorem parallel_pure {a a' : α} {Q : α → α → Graph → Prop} (h : Moved k b b')
    (holds : Q a a' b.graph) : Parallel k (pure a) (pure a') b b' Q := ⟨h, le_rfl, holds⟩

theorem parallel_throw (e : DocumentError) {Q : α → α → Graph → Prop} (h : Moved k b b') :
    Parallel k (throw e) (throw e) b b' Q := ⟨h, le_rfl, rfl⟩

theorem parallel_throw_bind (e : DocumentError) {f f' : α → BuildM β} {Q : β → β → Graph → Prop}
    (h : Moved k b b') : Parallel k (throw e >>= f) (throw e >>= f') b b' Q := ⟨h, le_rfl, rfl⟩

theorem Parallel.bind {m m' : BuildM α} {f f' : α → BuildM β} {P : α → α → Graph → Prop}
    {Q : β → β → Graph → Prop} (h : Parallel k m m' b b' P)
    (next : ∀ a a' d d', Moved k d d' → b.graph.size ≤ d.graph.size → P a a' d.graph →
      Parallel k (f a) (f' a') d d' Q) : Parallel k (m >>= f) (m' >>= f') b b' Q := by
  obtain ⟨moved, grows, result⟩ := h
  have step := outcome_bind m f b
  have step' := outcome_bind m' f' b'
  generalize outcome m b = x at moved grows result step
  generalize outcome m' b' = y at moved result step'
  obtain ⟨r, d⟩ := x
  obtain ⟨r', d'⟩ := y
  rcases r with e | a <;> rcases r' with e' | a'
  · refine ⟨?_, ?_, ?_⟩ <;> rw [step]
    · rw [step']; exact moved
    · exact grows
    · rw [step']; exact result
  · exact result.elim
  · exact result.elim
  · have rest := next a a' d d' moved grows result
    refine ⟨?_, ?_, ?_⟩ <;> rw [step]
    · rw [step']; exact rest.moved
    · exact grows.trans rest.grows
    · rw [step']; exact rest.result

theorem parallel_get_bind {f f' : Builder → BuildM β} {Q : β → β → Graph → Prop}
    (h : Parallel k (f b) (f' b') b b' Q) : Parallel k (get >>= f) (get >>= f') b b' Q := by
  have step (f : Builder → BuildM β) (b : Builder) : outcome (get >>= f) b = outcome (f b) b := by
    rw [outcome_bind]
    rfl
  refine ⟨?_, ?_, ?_⟩ <;> rw [step]
  · rw [step]; exact h.moved
  · exact h.grows
  · rw [step]; exact h.result

/-- a node of the first building and its number in the second -/
def Placed (k : Nat) (id id' : NodeId) (g : Graph) : Prop :=
  id' = movedBy k id ∧ 1 ≤ id ∧ id ≤ g.size

theorem Placed.mono {id id' : NodeId} {g g' : Graph} (h : Placed k id id' g)
    (le : g.size ≤ g'.size) : Placed k id id' g' := ⟨h.1, h.2.1, h.2.2.trans le⟩

theorem parallel_mapM {ι : Type} {f : ι → BuildM α} {P : α → α → Graph → Prop}
    (mono : ∀ {a a'} {g g' : Graph}, P a a' g → g.size ≤ g'.size → P a a' g') {l : List ι}
    (step : ∀ i ∈ l, ∀ d d', Moved k d d' → Parallel k (f i) (f i) d d' P) (h : Moved k b b') :
    Parallel k (l.mapM f) (l.mapM f) b b' (fun as as' g => Forall₂ (P · · g) as as') := by
  induction l generalizing b b' with
  | nil => exact parallel_pure h .nil
  | cons i l ih =>
    rw [mapM_cons]
    refine (step i (.head _) b b' h).bind fun a a' d d' moved _ holds => ?_
    refine (ih (fun j member => step j (.tail _ member)) moved).bind
      fun as as' e e' moved' le rest => ?_
    exact parallel_pure moved' (.cons (mono holds le) rest)

theorem wires_moved (h : Moved k b b') {ids ids' : List NodeId}
    (placed : Forall₂ (Placed k · · b.graph) ids ids') :
    (ids'.map fun i => (b'.graph.get? i).map Node.wire) =
      (ids.map fun i => (b.graph.get? i).map Node.wire).map (·.map (Wire.renamed (movedBy k))) := by
  induction placed with
  | nil => rfl
  | @cons id id' ids ids' own _ ih =>
    obtain ⟨rfl, positive, there⟩ := own
    obtain ⟨n, found⟩ := Graph.exists_get? ⟨positive, there⟩
    rw [map_cons, map_cons, map_cons, ih, found, h.nodes found]
    simp only [Option.map_some, Node.wire, Wire.renamed, Node.shape_moved]
    rfl

theorem parallel_build (op : Op) {ids ids' : List NodeId} (h : Moved k b b')
    (placed : Forall₂ (Placed k · · b.graph) ids ids') :
    Parallel k (build op ids) (build op ids') b b' (Placed k) := by
  have size := size_insert_nodes b.graph op ids
  have size' := size_insert_nodes b'.graph op ids'
  have look := get?_insert_nodes b.graph op ids
  have look' := get?_insert_nodes b'.graph op ids'
  have wires := wires_moved h placed
  have nonempty := h.nonempty
  have more := h.size
  have next : b'.graph.size + 1 = movedBy k (b.graph.size + 1) := by
    unfold movedBy
    rw [if_neg (by omega)]
    omega
  have left := outcome_build op ids b
  have right := outcome_build op ids' b'
  generalize (b.graph.insert op (ids.map .node)).2 = g at left size look
  generalize (b'.graph.insert op (ids'.map .node)).2 = g' at right size' look'
  refine ⟨?_, ?_, ?_⟩ <;> rw [left]
  · rw [right]
    refine ⟨?_, ?_, h.names, fun p member => ?_, fun {id n} found => ?_, fun {id n} found => ?_,
      fun {id n w} found member => ?_⟩
    · show 1 ≤ g.size
      omega
    · show g'.size = g.size + k
      omega
    · obtain ⟨positive, there⟩ := h.known p member
      exact ⟨positive, there.trans (by show b.graph.size ≤ g.size; omega)⟩
    · have found : g.get? id = some n := found
      show g'.get? (movedBy k id) = _
      rw [look] at found
      rw [look', next]
      by_cases new : id = b.graph.size + 1
      · rw [if_pos new] at found
        cases found
        rw [if_pos (by rw [new]), wires]
        unfold Node.moved Graph.next
        rw [next]
      · rw [if_neg new] at found
        rw [if_neg (fun same => new (movedBy_inj same)), h.nodes found]
    · have found : g.get? id = some n := found
      rw [look] at found
      split at found
      · rename_i new
        cases found
        exact new.symm
      · exact h.own found
    · have found : g.get? id = some n := found
      rw [look] at found
      split at found
      · rename_i new
        cases found
        obtain ⟨i, listed, wire⟩ := mem_map.1 member
        obtain ⟨m, there, rfl⟩ := Option.map_eq_some_iff.1 wire
        show 1 ≤ m.id ∧ m.id < id
        obtain ⟨positive, inside⟩ := Graph.le_size_of_get? there
        rw [h.own there, new]
        exact ⟨positive, Nat.lt_succ_of_le inside⟩
      · exact h.below found member
  · show b.graph.size ≤ g.size
    omega
  · rw [right]
    refine ⟨?_, ?_, ?_⟩
    · exact next
    · exact Nat.le_add_left 1 _
    · exact le_of_eq size.symm

theorem parallel_remember (name : String) {id id' : NodeId} (h : Moved k b b')
    (placed : Placed k id id' b.graph) :
    Parallel k (remember name id) (remember name id') b b' (fun _ _ => Placed k id id') where
  moved := {
    nonempty := h.nonempty
    size := h.size
    nodes := h.nodes
    own := h.own
    below := h.below
    names := by
      show (name, id') :: b'.built = _
      rw [h.names, placed.1]
      rfl
    known := forall_mem_cons.2 ⟨placed.2, h.known⟩ }
  grows := le_rfl
  result := placed

theorem lookup_moved (l : List (String × NodeId)) (name : String) :
    (l.map fun p => (p.1, movedBy k p.2)).lookup name = (l.lookup name).map (movedBy k) :=
  lookup_map_rows (f := fun name => name) (fun _ _ same => same) (movedBy k)

variable {doc : Document}

theorem parallel_buildInput {resolve : String → BuildM NodeId}
    (step : ∀ name d d', Moved k d d' → Parallel k (resolve name) (resolve name) d d' (Placed k))
    (owner : String) (i : Input) (h : Moved k b b') :
    Parallel k (buildInput resolve owner i) (buildInput resolve owner i) b b' (Placed k) := by
  cases i with
  | reference name => exact step name b b' h
  | literal line s =>
    unfold buildInput
    dsimp only
    cases s.toValue with
    | ok v => exact parallel_build _ h .nil
    | error e => exact parallel_throw _ h
  | unreadable line => exact parallel_throw _ h

theorem parallel_resolve (fuel : Nat) (path : List String) (name : String) (h : Moved k b b') :
    Parallel k (doc.resolve fuel path name) (doc.resolve fuel path name) b b' (Placed k) := by
  induction fuel generalizing path name b b' with
  | zero => exact parallel_throw _ h
  | succ fuel ih =>
    unfold resolve
    by_cases position : name = positionName
    · rw [if_pos position]
      exact parallel_pure h ⟨rfl, Nat.le_refl 1, h.nonempty⟩
    rw [if_neg position]
    dsimp only
    by_cases loop : path.contains name = true
    · rw [if_pos loop]
      exact parallel_throw_bind _ h
    rw [if_neg loop]
    refine parallel_get_bind ?_
    rw [h.names, lookup_moved]
    cases known : b.built.lookup name with
    | some id => exact parallel_pure h ⟨rfl, h.known (name, id) (mem_of_lookup known)⟩
    | none =>
    cases doc.nodes.lookup name with
    | none => exact parallel_throw _ h
    | some spec =>
    dsimp only [Option.map_none]
    cases recipe? spec.op with
    | none => exact parallel_throw _ h
    | some recipe =>
    dsimp only
    by_cases count : spec.inputs.length ≠ recipe.inputs
    · rw [if_pos count]
      exact parallel_throw_bind _ h
    rw [if_neg count]
    refine (parallel_mapM (P := Placed k) (fun own le => own.mono le) (fun i _ d d' moved =>
      parallel_buildInput (fun other d d' moved => ih (path ++ [name]) other moved) name i moved)
      h).bind fun ids ids' d d' moved _ placed => ?_
    cases recipe.make spec with
    | error fault => exact parallel_throw _ moved
    | ok op =>
    refine (parallel_build op moved placed).bind fun id id' e e' moved' _ own => ?_
    exact (parallel_remember name moved' own).bind fun _ _ f f' moved'' _ own' =>
      parallel_pure moved'' own'

theorem moved_start {h : Graph} (built : h.Built) : Moved (h.size - 1) ⟨.initial, []⟩ ⟨h, []⟩ := by
  have only {id : NodeId} {n : Node} (found : Graph.initial.get? id = some n) :
      id = Graph.positionId ∧ n = ⟨Graph.positionId, .position, []⟩ := by
    obtain ⟨positive, inside⟩ := Graph.le_size_of_get? found
    obtain rfl : id = Graph.positionId := le_antisymm inside positive
    exact ⟨rfl, Option.some.inj found.symm⟩
  have positive := built.size_pos
  refine ⟨Nat.le_refl 1, ?_, rfl, nofun, fun {id n} found => ?_, fun {id n} found => ?_,
    fun {id n w} found member => ?_⟩
  · show h.size = 1 + (h.size - 1)
    omega
  all_goals obtain ⟨rfl, rfl⟩ := only found
  · exact get?_positionId built
  · rfl
  · cases member

theorem roots_moved (doc : Document) {h : Graph} (built : h.Built) :
    ∃ b b', Moved (h.size - 1) b b' ∧ b.graph = (doc.roots .initial).2 ∧
      b'.graph = (doc.roots h).2 ∧
      SameResult (fun roots roots' => roots' = roots.map (Root.renamed (movedBy (h.size - 1))) ∧
        ∀ r ∈ roots, ∃ id, r.node = some id ∧ 1 ≤ id ∧ id ≤ b.graph.size)
        (doc.roots .initial).1 (doc.roots h).1 := by
  have rooted : Parallel (h.size - 1) (doc.targets.mapM (buildRoot doc))
      (doc.targets.mapM (buildRoot doc)) ⟨.initial, []⟩ ⟨h, []⟩ (fun roots roots' g =>
        Forall₂ (fun r r' => r' = r.renamed (movedBy (h.size - 1)) ∧
          ∃ id, r.node = some id ∧ 1 ≤ id ∧ id ≤ g.size) roots roots') := by
    refine parallel_mapM ?_ (fun target _ d d' moved => ?_) (moved_start built)
    · rintro r r' g g' ⟨same, id, node, positive, inside⟩ le
      exact ⟨same, id, node, positive, inside.trans le⟩
    · refine (parallel_resolve _ [] _ moved).bind fun id id' e e' moved' _ placed => ?_
      exact parallel_pure moved' ⟨by rw [placed.1]; rfl, id, rfl, placed.2⟩
  refine ⟨_, _, rooted.moved, rfl, rfl, ?_⟩
  have result := rooted.result
  show SameResult _ (outcome (doc.targets.mapM (buildRoot doc)) ⟨.initial, []⟩).1
    (outcome (doc.targets.mapM (buildRoot doc)) ⟨h, []⟩).1
  generalize (outcome (doc.targets.mapM (buildRoot doc)) ⟨.initial, []⟩).1 = x at result
  generalize (outcome (doc.targets.mapM (buildRoot doc)) ⟨h, []⟩).1 = y at result
  rcases x with e | roots <;> rcases y with e' | roots'
  · exact result
  · exact result.elim
  · exact result.elim
  · have each : Forall₂ _ roots roots' := result
    show roots' = roots.map _ ∧ _
    clear result
    induction each with
    | nil => exact ⟨rfl, nofun⟩
    | cons own _ ih =>
      exact ⟨by rw [own.1, ih.1]; rfl, forall_mem_cons.2 ⟨own.2, ih.2⟩⟩

end

end Document

/-! ## compiling -/

open Compile Validate

theorem Program.SameStructure.eq {p q : Program} (h : p.SameStructure q)
    (values : p.parameters = q.parameters) : p = q := by
  obtain ⟨source, digest, workgroup, dispatches, buffers, parameters⟩ := p
  obtain ⟨source', digest', workgroup', dispatches', buffers', parameters'⟩ := q
  obtain ⟨rfl, rfl, rfl, rfl, rfl, -⟩ := h
  cases values
  rfl

/-- both made the same program, or both failed alike -/
def SameProgram {ε ε' : Type} (F : ε → ε' → Prop) : Except ε Program → Except ε' Program → Prop
  | .ok p, .ok q => p = q
  | .error e, .error e' => F e e'
  | _, _ => False

/-- graphs that are the same up to a renumbering compile to the same program, or both fail alike -/
theorem compile_covers {S : NodeId → Prop} {φ : Equiv.Perm NodeId} {o o' : Options} {g h : Graph}
    (r : Covers True S φ o o' g h) (visits : VisitsAgree True S φ o o' (emit g) (emit h))
    (workgroup : o'.workgroup = o.workgroup) {roots : List Root}
    (inside : ∀ root ∈ roots, ∀ id, root.node = some id → S id)
    (validated : SameVerdict True Eq (g.validate roots o.requiredOutputs)
      (h.validate (roots.map (Root.renamed φ)) o'.requiredOutputs)) :
    SameProgram (Failure.Alike True) (g.compile roots o)
      (h.compile (roots.map (Root.renamed φ)) o') := by
  have parsed := agree_parse_covers r visits workgroup inside validated
  rw [compile_eq, compile_eq]
  unfold Graph.parsed
  unfold AgreeUpTo Agree at parsed
  generalize outcome (parse g roots) (Context.new o) = x at parsed
  generalize outcome (parse h (roots.map (Root.renamed φ))) (Context.new o') = y at parsed
  obtain ⟨x | x, c⟩ := x <;> obtain ⟨y | y, d⟩ := y
  · exact parsed.1
  · exact parsed.elim
  · exact parsed.elim
  · have same := sameStructure_of_view parsed.2.view Kernel.keepsText_id parsed.2.layout
    exact same.eq (parsed.2.tables.values trivial)

/-- numbers of a graph of `n` nodes behind that of the world position, moved up; the numbers above
them make room -/
def moving (k n : Nat) : Equiv.Perm Nat where
  toFun id := if id ≤ 1 then id else if id ≤ n then id + k else if id ≤ n + k then
    id - (n - 1) else id
  invFun id := if id ≤ 1 then id else if id ≤ k + 1 then id + (n - 1) else
    if id ≤ n + k then id - k else id
  left_inv id := by
    dsimp only
    repeat' split
    all_goals omega
  right_inv id := by
    dsimp only
    repeat' split
    all_goals omega

theorem moving_eq (k : Nat) {n id : Nat} (h : id ≤ n) : moving k n id = movedBy k id := by
  show (if id ≤ 1 then id else if id ≤ n then id + k else _) = _
  unfold movedBy
  rw [if_pos h]

section
variable {k : Nat} {b b' : Document.Builder} {o o' : Options}

/-- a node of a document and its counterpart; operands come before it -/
theorem counterparts_moved (moved : Document.Moved k b b')
    (bindings : ∀ name, o.bindings.lookup name = o'.bindings.lookup name) {id : NodeId} {n : Node}
    (found : b.graph.get? id = some n) :
    Counterparts True (fun j => 1 ≤ j ∧ j < id) (moving k b.graph.size) o o' n (n.moved k) where
  id := by
    have inside := (Graph.le_size_of_get? found).2
    rw [moved.own found, moving_eq k inside]
    exact congrArg (movedBy k) (moved.own found)
  op := rfl
  inputs := by
    refine map_congr_left fun x member => ?_
    cases x with
    | none => rfl
    | some w =>
      obtain ⟨-, before⟩ := moved.below found member
      have inside := (before.le).trans (Graph.le_size_of_get? found).2
      simp only [Option.map_some, Wire.renamed, moving_eq k inside]
  bound {name s a b} op op' := by
    have same : n.op = .inject name s b := op'
    rw [op] at same
    cases same
    rw [bindings]
  sources w member := moved.below found member
  same _ := rfl
  bindings _ := bindings

theorem Compile.Counterparts.mono {V : Prop} {S T : NodeId → Prop} {φ : NodeId → NodeId}
    {n m : Node} (h : Counterparts V S φ o o' n m) (sub : ∀ id, S id → T id) :
    Counterparts V T φ o o' n m :=
  ⟨h.toRenamed, fun w member => sub _ (h.sources w member), h.same, h.bindings⟩

/-- the nodes of the first building -/
def Inside (g : Graph) (id : NodeId) : Prop := 1 ≤ id ∧ id ≤ g.size

section
variable (moved : Document.Moved k b b')
  (bindings : ∀ name, o.bindings.lookup name = o'.bindings.lookup name)
include moved bindings

theorem covers_moved :
    Covers True (Inside b.graph) (moving k b.graph.size) o o' b.graph b'.graph where
  position := rfl
  nodes id there := by
    obtain ⟨n, found⟩ := Graph.exists_get? there
    rw [moving_eq k there.2, found, moved.nodes found]
    exact .some ((counterparts_moved moved bindings found).mono fun j before =>
      ⟨before.1, (before.2.le).trans there.2⟩)
  own {id n} there found := by
    rw [moved.own found]
    exact there

/-- nodes are generated alike as long as there is fuel for all the nodes before them -/
theorem agree_moved (fuel fuel' : Nat) {id : Nat} (there : Inside b.graph id) (enough : id < fuel)
    (enough' : id < fuel') {c d : Context} (t : Twins True (moving k b.graph.size) o o' c d) :
    AgreeUpTo True (moving k b.graph.size) o o' (emitWithin b.graph fuel id) c
      (emitWithin b'.graph fuel' (moving k b.graph.size id)) d := by
  induction fuel generalizing fuel' id c d with
  | zero => omega
  | succ fuel ih =>
    cases fuel' with
    | zero => omega
    | succ fuel' =>
      obtain ⟨n, found⟩ := Graph.exists_get? there
      unfold emitWithin
      rw [moving_eq k there.2, found, moved.nodes found]
      refine agree_emitNode (fun j before c d t => ?_) rfl
        (counterparts_moved moved bindings found) t
      have before : 1 ≤ j ∧ j < id := before
      have inside : Inside b.graph j := ⟨before.1, (before.2.le).trans there.2⟩
      exact ih fuel' inside (before.2.trans_le (Nat.le_of_lt_succ enough))
        (before.2.trans_le (Nat.le_of_lt_succ enough')) t

end

theorem walk_moved (moved : Document.Moved k b b') (fuel fuel' : Nat) {path path' : List Node}
    (along : path'.map Node.id = (path.map Node.id).map (moving k b.graph.size)) {id : Nat}
    (there : Inside b.graph id) (enough : id < fuel) (enough' : id < fuel') (done : List NodeId) :
    SameVerdict True (SameDone (moving k b.graph.size)) (walk b.graph fuel path id done)
      (walk b'.graph fuel' path' (moving k b.graph.size id)
        (done.map (moving k b.graph.size))) := by
  induction fuel generalizing fuel' path path' id done with
  | zero => omega
  | succ fuel ih =>
    cases fuel' with
    | zero => omega
    | succ fuel' =>
      obtain ⟨n, found⟩ := Graph.exists_get? there
      have related : Option.Rel (Counterparts True (fun j => 1 ≤ j ∧ j < id) (moving k b.graph.size)
          default default) (b.graph.get? id) (b'.graph.get? (moving k b.graph.size id)) := by
        rw [moving_eq k there.2, found, moved.nodes found]
        exact .some (counterparts_moved moved (fun _ => rfl) found)
      refine walk_counterparts along related fun n m own j before done => ?_
      have inside : Inside b.graph j := ⟨before.1, (before.2.le).trans there.2⟩
      exact ih fuel' (by simp [along, own]) inside
        (before.2.trans_le (Nat.le_of_lt_succ enough))
        (before.2.trans_le (Nat.le_of_lt_succ enough')) done

end

/-- a document is built on every graph, or on none, and what is built compiles to one program, or
fails on every graph for one reason.  Of the options the values that are found for names count, and
which outputs are missing. -/
theorem Document.compile_moved (doc : Document) {h : Graph} (built : h.Built) {o o' : Options}
    (bindings : ∀ name, o.bindings.lookup name = o'.bindings.lookup name)
    (workgroup : o'.workgroup = o.workgroup)
    (required : ∀ roots seen, (doc.roots .initial).1 = .ok roots →
      checkTargets [] roots = .ok seen →
      checkRequired seen o.requiredOutputs = checkRequired seen o'.requiredOutputs) :
    (∃ e, (doc.roots .initial).1 = .error e ∧ (doc.roots h).1 = .error e) ∨
    ∃ roots roots', (doc.roots .initial).1 = .ok roots ∧ (doc.roots h).1 = .ok roots' ∧
      SameProgram (Failure.Alike True) ((doc.roots .initial).2.compile roots o)
        ((doc.roots h).2.compile roots' o') := by
  obtain ⟨b, b', moved, left, right, result⟩ := doc.roots_moved built
  cases rooted : (doc.roots .initial).1 with
  | error e =>
    cases rooted' : (doc.roots h).1 with
    | error e' =>
      rw [rooted, rooted'] at result
      exact .inl ⟨e, rfl, congrArg Except.error result.symm⟩
    | ok roots' =>
      rw [rooted, rooted'] at result
      exact result.elim
  | ok roots =>
    cases rooted' : (doc.roots h).1 with
    | error e' =>
      rw [rooted, rooted'] at result
      exact result.elim
    | ok roots' =>
      rw [rooted, rooted'] at result
      obtain ⟨same, there⟩ := result
      refine .inr ⟨roots, roots', rfl, rfl, ?_⟩
      rw [← left, ← right]
      have inside : ∀ root ∈ roots, ∀ id, root.node = some id → Inside b.graph id := by
        intro root member id node
        obtain ⟨id', node', range⟩ := there root member
        cases node.symm.trans node'
        exact range
      have renamed : roots' = roots.map (Root.renamed (moving (h.size - 1) b.graph.size)) := by
        rw [same]
        refine map_congr_left fun root member => ?_
        obtain ⟨id, node, -, range⟩ := there root member
        unfold Root.renamed
        rw [node, Option.map_some, Option.map_some, moving_eq _ range]
      have covers := covers_moved moved bindings
      have more := moved.size
      rw [renamed]
      refine compile_covers covers (fun id range c d t => ?_) workgroup inside
        (validate_covers covers (fun id range done => ?_) inside fun seen =>
          required roots seen rooted)
      · have range' : 1 ≤ id ∧ id ≤ b.graph.size := range
        exact agree_moved moved bindings _ _ range
          (Nat.lt_of_le_of_lt range'.2 (by omega)) (Nat.lt_of_le_of_lt range'.2 (by omega)) t
      · have range' : 1 ≤ id ∧ id ≤ b.graph.size := range
        exact walk_moved moved _ _ rfl range
          (Nat.lt_of_le_of_lt range'.2 (by omega)) (Nat.lt_of_le_of_lt range'.2 (by omega)) done

end Terrain
