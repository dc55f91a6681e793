import Mathlib.Data.List.Nodup
import Mathlib.Data.List.Perm.Subperm
import Terrain.Proofs.Built

/-!
# Validated graphs have an order

Validation walks the graph from its outputs and lists the nodes it found sound, each after its
operands.  So the nodes that code is generated for can be numbered with operands below what uses
them, which is what every argument about caches and about terms goes by.

* `Sorted`             a list of nodes, the latest first, with operands before what uses them;
* `rank`               the place of a node in such a list, counted from the first;
* `Sorted.input`       operands have a smaller rank;
* `checkTargets_iff`   the names and bindings of outputs;
* `validate_ok_iff`    the three parts of validation, and `validate_error` where one of them fails;
* `validate_sorted`    a validated set of outputs comes with a sorted list of nodes.
-/

namespace Terrain

open Validate List

variable {r : Root} {e : CompileError} {n : Node} {done : List NodeId} {path : List Node}

/-! ## results -/

section
variable {ε ε' α β : Type}

theorem bind_ok {m : Except ε α} {f : α → Except ε β} {b : β} (h : m >>= f = .ok b) :
    ∃ a, m = .ok a ∧ f a = .ok b := by
  cases m with
  | error e => cases h
  | ok a => exact ⟨a, rfl, h⟩

theorem bind_error {m : Except ε α} {f : α → Except ε β} {e : ε} (h : m >>= f = .error e) :
    m = .error e ∨ ∃ a, m = .ok a ∧ f a = .error e := by
  cases m with
  | error e' => cases h; exact .inl rfl
  | ok a => exact .inr ⟨a, rfl, h⟩

theorem bind_eq_ok {x : Except ε α} {f : α → Except ε β} {b : β} :
    x >>= f = .ok b ↔ ∃ a, x = .ok a ∧ f a = .ok b := by
  refine ⟨bind_ok, ?_⟩
  rintro ⟨a, rfl, h⟩
  exact h

theorem mapM_cons_ok {f : α → Except ε β} {x : α} {xs : List α} {ys : List β} :
    (x :: xs).mapM f = .ok ys ↔ ∃ y rest, f x = .ok y ∧ xs.mapM f = .ok rest ∧ y :: rest = ys := by
  rw [List.mapM_cons, bind_eq_ok]
  constructor
  · rintro ⟨y, head, h⟩
    obtain ⟨rest, tail, same⟩ := bind_eq_ok.1 h
    exact ⟨y, rest, head, tail, Except.ok.inj same⟩
  · rintro ⟨y, rest, head, tail, rfl⟩
    exact ⟨y, head, bind_eq_ok.2 ⟨rest, tail, rfl⟩⟩

theorem mapError_eq_ok {x : Except ε α} {f : ε → ε'} {a : α} :
    x.mapError f = .ok a ↔ x = .ok a := by
  cases x with
  | error e | ok b => simp [Except.mapError]

end

/-! ## the set of outputs -/

/-- an output may be bound where the targets before it are known -/
structure Root.Fits (seen : List String) (r : Root) : Prop where
  named : isIdentifier r.target = true
  free : ¬ cacheStem.toList <+: r.target.toList
  new : r.target ∉ seen
  bound : r.node.isSome = true

section
variable {seen : List String} {roots : List Root}

theorem checkTargets_cons (fits : r.Fits seen) (rest : List Root) :
    checkTargets seen (r :: rest) = checkTargets (r.target :: seen) rest := by
  have free : ¬ r.target.startsWith cacheStem = true := by
    rw [String.startsWith_string_iff]
    exact fits.free
  have new : ¬ seen.contains r.target = true := fun there => fits.new (contains_iff_mem.1 there)
  have bound : ¬ r.node.isNone = true := by
    intro unbound
    have bound := fits.bound
    rw [Option.isNone_iff_eq_none.1 unbound] at bound
    cases bound
  rw [checkTargets, fits.named, if_neg (by decide), if_neg free, if_neg new, if_neg bound]

theorem checkTargets_cases (r : Root) (rest : List Root) :
    (∃ e, checkTargets seen (r :: rest) = .error e ∧
      (e = .configuration r.target .targetName ∨ e = .structural none (.reservedOutput r.target) ∨
        e = .structural none (.repeatedOutput r.target) ∧ r.target ∈ seen ∨
        e = .structural none (.unboundOutput r.target) ∧ r.node = none)) ∨ r.Fits seen := by
  unfold checkTargets
  split
  · exact .inl ⟨_, rfl, .inl rfl⟩
  case isFalse named =>
    split
    · exact .inl ⟨_, rfl, .inr (.inl rfl)⟩
    case isFalse free =>
      split
      case isTrue old => exact .inl ⟨_, rfl, .inr (.inr (.inl ⟨rfl, contains_iff_mem.1 old⟩))⟩
      case isFalse new =>
        split
        case isTrue unbound =>
          exact .inl ⟨_, rfl, .inr (.inr (.inr ⟨rfl, Option.isNone_iff_eq_none.1 unbound⟩))⟩
        case isFalse bound =>
          rw [String.startsWith_string_iff] at free
          exact .inr ⟨by simpa using named, free, by simpa using new,
            by simpa [Option.isSome_iff_ne_none] using bound⟩

theorem fits_of_checkTargets {seen' : List String} {rest : List Root}
    (h : checkTargets seen (r :: rest) = .ok seen') : r.Fits seen := by
  rcases checkTargets_cases r rest with ⟨e, refused, -⟩ | fits
  · cases h.symm.trans refused
  · exact fits

theorem checkTargets_iff : (∃ seen', checkTargets seen roots = .ok seen') ↔
    (∀ r ∈ roots, r.Fits seen) ∧ (roots.map Root.target).Nodup := by
  induction roots generalizing seen with
  | nil => exact ⟨fun _ => ⟨nofun, nodup_nil⟩, fun _ => ⟨seen, rfl⟩⟩
  | cons r rest ih =>
    rw [forall_mem_cons, map_cons, nodup_cons]
    constructor
    · rintro ⟨seen', h⟩
      have fits := fits_of_checkTargets h
      rw [checkTargets_cons fits] at h
      obtain ⟨others, distinct⟩ := ih.1 ⟨seen', h⟩
      refine ⟨⟨fits, fun r' member => ?_⟩, fun again => ?_, distinct⟩
      · have fits' := others r' member
        exact ⟨fits'.named, fits'.free, fun old => fits'.new (.tail _ old), fits'.bound⟩
      · obtain ⟨r', member, same⟩ := mem_map.1 again
        exact (others r' member).new (same ▸ .head _)
    · rintro ⟨⟨fits, others⟩, first, distinct⟩
      rw [checkTargets_cons fits]
      refine ih.2 ⟨fun r' member => ?_, distinct⟩
      have fits' := others r' member
      refine ⟨fits'.named, fits'.free, fun old => ?_, fits'.bound⟩
      rcases mem_cons.1 old with same | old
      · exact first (same ▸ mem_map_of_mem member)
      · exact fits'.new old

theorem mem_checkTargets {seen' : List String} (h : checkTargets seen roots = .ok seen')
    (name : String) : name ∈ seen' ↔ name ∈ seen ∨ name ∈ roots.map Root.target := by
  induction roots generalizing seen with
  | nil =>
    cases h
    simp
  | cons r roots ih =>
    rw [checkTargets_cons (fits_of_checkTargets h)] at h
    rw [ih h, mem_cons, map_cons, mem_cons]
    tauto

theorem checkTargets_error (h : checkTargets seen roots = .error e) :
    ∃ t, e = .configuration t .targetName ∨ e = .structural none (.reservedOutput t) ∨
      e = .structural none (.repeatedOutput t) ∨ e = .structural none (.unboundOutput t) := by
  induction roots generalizing seen with
  | nil => cases h
  | cons r rest ih =>
    rcases checkTargets_cases r rest with ⟨e', refused, reason⟩ | fits
    · cases h.symm.trans refused
      exact ⟨r.target, reason.imp_right (.imp_right (.imp And.left And.left))⟩
    · rw [checkTargets_cons fits] at h
      exact ih h

theorem checkRequired_ok {required : List String} :
    checkRequired seen required = .ok () ↔ ∀ name ∈ required, name ∈ seen := by
  induction required with
  | nil => simp [checkRequired]
  | cons name rest ih =>
    unfold checkRequired
    rw [forall_mem_cons, ← ih]
    by_cases there : name ∈ seen
    · rw [if_pos (contains_iff_mem.2 there)]
      exact ⟨fun h => ⟨there, h⟩, fun h => h.2⟩
    · rw [if_neg fun h => there (contains_iff_mem.1 h)]
      exact ⟨fun h => (nomatch h), fun h => absurd h.1 there⟩

theorem checkRequired_error {required : List String} (h : checkRequired seen required = .error e) :
    ∃ t, e = .structural none (.missingOutput t) := by
  induction required with
  | nil => cases h
  | cons name rest ih =>
    unfold checkRequired at h
    split at h
    · exact ih h
    · cases h
      exact ⟨name, rfl⟩

end

section
variable {g : Graph} {roots : List Root} {required : List String}

theorem validate_ok_iff :
    g.validate roots required = .ok () ↔ ∃ seen, checkTargets [] roots = .ok seen ∧
    checkRequired seen required = .ok () ∧ walkRoots g roots [] = .ok () := by
  unfold Graph.validate
  rw [bind_eq_ok]
  refine exists_congr fun seen => and_congr_right fun _ => ?_
  rw [bind_eq_ok]
  exact ⟨fun ⟨_, h⟩ => h, fun h => ⟨(), h⟩⟩

theorem validate_fits (h : g.validate roots required = .ok ()) :
    (∀ r ∈ roots, r.Fits []) ∧ (roots.map Root.target).Nodup := by
  obtain ⟨seen, targets, -⟩ := validate_ok_iff.1 h
  exact checkTargets_iff.1 ⟨seen, targets⟩

theorem validate_error (h : g.validate roots required = .error e) :
    checkTargets [] roots = .error e ∨ (∃ t, e = .structural none (.missingOutput t)) ∨
      walkRoots g roots [] = .error e := by
  unfold Graph.validate at h
  rcases bind_error h with targets | ⟨seen, -, h⟩
  · exact .inl targets
  rcases bind_error h with missing | ⟨_, -, walked⟩
  · exact .inr (.inl (checkRequired_error missing))
  · exact .inr (.inr walked)

end

/-! ## what the walk reports -/

theorem checkTargetShape_error (h : checkTargetShape r n = .error e) :
    ∃ want, e = .shapeAt n (.target r.target want n.shape) := by
  unfold checkTargetShape at h
  split at h
  case h_1 want fixed =>
    split at h <;> cases h
    exact ⟨want, rfl⟩
  case h_2 => cases h

theorem walkInputs_error {step : NodeId → List NodeId → Except CompileError (List NodeId)} {i : Nat}
    {os : List (Option Wire)}
    (h : walkInputs step n i os done = .error e) :
    (∃ k, e = .atNode n (.inputMissing k)) ∨ ∃ w done', some w ∈ os ∧
      step w.source done' = .error e := by
  induction os generalizing i done with
  | nil => cases h
  | cons o os ih =>
    cases o with
    | none =>
      cases h
      exact .inl ⟨i, rfl⟩
    | some w =>
      rw [walkInputs] at h
      split at h
      case h_1 failed =>
        cases h
        exact .inr ⟨w, done, .head _, failed⟩
      case h_2 =>
        rcases ih h with missing | ⟨w', done', member, failed⟩
        · exact .inl missing
        · exact .inr ⟨w', done', .tail _ member, failed⟩

/-- a walk of a node reports a cycle, a fault of the node, or what a walk of an input reports -/
theorem walk_error {g : Graph} {fuel : Nat} {id : NodeId}
    (h : walk g (fuel + 1) path id done = .error e) :
    ∃ n, g.get? id = some n ∧
      (path.any (·.id == id) = true ∧ e = .atNode n (.cycle (cycleLabels path n)) ∨
        (∃ fault, nodeFault n = some fault ∧ e = .atNode n fault) ∨
        (∃ k, e = .atNode n (.inputMissing k)) ∨
        ∃ w done', some w ∈ n.inputs ∧ walk g fuel (n :: path) w.source done' = .error e) := by
  rw [walk] at h
  split at h
  case h_1 => cases h
  case h_2 n found =>
    refine ⟨n, found, ?_⟩
    split at h
    case isTrue again =>
      cases h
      exact .inl ⟨again, rfl⟩
    split at h
    · cases h
    split at h
    case h_1 fault faulty =>
      cases h
      exact .inr (.inl ⟨fault, faulty, rfl⟩)
    split at h
    case h_1 failed =>
      cases h
      exact .inr (.inr (walkInputs_error failed))
    case h_2 => cases h

theorem walkRoots_error {g : Graph} {roots : List Root}
    (h : walkRoots g roots done = .error e) : ∃ r ∈ roots, ∃ n, r.node.bind g.get? = some n ∧
      ((∃ want, e = .shapeAt n (.target r.target want n.shape)) ∨
        ∃ done', walk g (g.size + 1) [] n.id done' = .error e) := by
  induction roots generalizing done with
  | nil => cases h
  | cons r rest ih =>
    have later {done' : List NodeId} (h : walkRoots g rest done' = .error e) :=
      (ih h).imp fun _ h => And.imp_left (mem_cons_of_mem r) h
    rw [walkRoots] at h
    split at h
    case h_1 => exact later h
    case h_2 n found =>
      split at h
      case h_1 failed =>
        cases h
        exact ⟨r, .head _, n, found, .inr ⟨done, failed⟩⟩
      case h_2 =>
        split at h
        case h_1 failed =>
          cases h
          exact ⟨r, .head _, n, found, .inl (checkTargetShape_error failed)⟩
        case h_2 => exact later h

/-! ## sorted lists of nodes -/

inductive Sorted (g : Graph) : List NodeId → Prop
  | nil : Sorted g []
  | cons {id : NodeId} {done : List NodeId} {n : Node} (found : g.get? id = some n)
      (sound : nodeFault n = none)
      (inputs : ∀ o ∈ n.inputs, ∃ w, o = some w ∧ (w.source ∈ done ∨ g.get? w.source = none))
      (new : id ∉ done) (rest : Sorted g done) : Sorted g (id :: done)

def rank : List NodeId → NodeId → Nat
  | [], _ => 0
  | x :: done, id => if x = id then done.length else rank done id

theorem rank_lt_length {id : NodeId} (h : id ∈ done) : rank done id < done.length := by
  induction done with
  | nil => simp at h
  | cons x done ih =>
    unfold rank
    split
    · simp
    case isFalse other =>
      have := ih ((mem_cons.1 h).resolve_left (Ne.symm other))
      rw [length_cons]
      omega

section
variable {g : Graph}

theorem Sorted.found (h : Sorted g done) {id : NodeId} (member : id ∈ done) :
    ∃ n, g.get? id = some n := by
  induction h with
  | nil => simp at member
  | cons found sound inputs new rest ih =>
    rcases mem_cons.1 member with rfl | member
    · exact ⟨_, found⟩
    · exact ih member

theorem Sorted.nodup (h : Sorted g done) : done.Nodup := by
  induction h with
  | nil => exact nodup_nil
  | cons _ _ _ new _ ih => exact nodup_cons.2 ⟨new, ih⟩

theorem Sorted.filter (h : Sorted g done) {S : NodeId → Prop} [DecidablePred S]
    (closed : ∀ {id n w}, S id → g.get? id = some n → some w ∈ n.inputs → S w.source) :
    Sorted g (done.filter S) := by
  induction h with
  | nil => exact .nil
  | @cons id done n found sound inputs new rest ih =>
    by_cases inside : S id
    · rw [filter_cons_of_pos (by simpa using inside)]
      refine .cons found sound (fun o member => ?_) (fun there => new (mem_filter.1 there).1) ih
      obtain ⟨w, rfl, known⟩ := inputs o member
      refine ⟨w, rfl, known.imp_left fun there => ?_⟩
      exact mem_filter.2 ⟨there, decide_eq_true (closed inside found member)⟩
    · rw [filter_cons_of_neg (by simpa using inside)]
      exact ih

theorem Sorted.input {done : List NodeId} (h : Sorted g done) {id : NodeId} {n m : Node} {w : Wire}
    (member : id ∈ done) (found : g.get? id = some n) (input : some w ∈ n.inputs)
    (source : g.get? w.source = some m) : w.source ∈ done ∧ rank done w.source < rank done id := by
  induction h with
  | nil => simp at member
  | @cons x done n' found' sound inputs new rest ih =>
    -- a place in the rest of the list is below the place of its head
    have old {y : NodeId} (h : y ∈ done) : rank (x :: done) y = rank done y := by
      have : x ≠ y := fun e => new (e ▸ h)
      simp only [rank, this, if_false]
    rcases mem_cons.1 member with rfl | member
    · cases found'.symm.trans found
      obtain ⟨w', e, there⟩ := inputs _ input
      cases e
      have there := there.resolve_right (by simp [source])
      refine ⟨.tail _ there, ?_⟩
      rw [old there]
      simpa [rank] using rank_lt_length there
    · obtain ⟨there, lower⟩ := ih member
      exact ⟨.tail _ there, by rwa [old there, old member]⟩

/-! ## the walk -/

theorem length_le_size {ids : List NodeId} (nodup : ids.Nodup)
    (there : ∀ id ∈ ids, ∃ n, g.get? id = some n) : ids.length ≤ g.size := by
  have sub : ids ⊆ List.range' 1 g.size := by
    intro id h
    obtain ⟨n, found⟩ := there id h
    have := Graph.le_size_of_get? found
    rw [mem_range'_1]
    omega
  have := (nodup.subperm sub).length_le
  rwa [length_range'] at this

/-- a path of the walk: distinct nodes of the graph, none of them done -/
structure Path (g : Graph) (path : List Node) (done : List NodeId) : Prop where
  found : ∀ p ∈ path, g.get? p.id = some p
  nodup : (path.map Node.id).Nodup
  pending : ∀ p ∈ path, p.id ∉ done

theorem Path.cons {path : List Node} {done : List NodeId} (along : Path g path done) {n : Node}
    (found : g.get? n.id = some n) (fresh : ¬ path.any (·.id == n.id) = true) (new : n.id ∉ done) :
    Path g (n :: path) done where
  found := forall_mem_cons.2 ⟨found, along.found⟩
  nodup := by
    refine nodup_cons.2 ⟨fun on => ?_, along.nodup⟩
    obtain ⟨p, on, same⟩ := mem_map.1 on
    exact fresh (any_eq_true.2 ⟨p, on, beq_iff_eq.2 same⟩)
  pending := forall_mem_cons.2 ⟨new, along.pending⟩

theorem Path.length_le (along : Path g path done) : path.length ≤ g.size := by
  have bound := length_le_size along.nodup fun id member => by
    obtain ⟨p, on, rfl⟩ := mem_map.1 member
    exact ⟨p, along.found p on⟩
  rwa [length_map] at bound

/-- what a walk of one node adds -/
structure Walked (g : Graph) (path : List Node) (done done' : List NodeId) : Prop where
  sorted : Sorted g done'
  subset : done ⊆ done'
  path : Path g path done'

theorem walkInputs_ok {walk : NodeId → List NodeId → Except CompileError (List NodeId)}
    (step : ∀ id done done', walk id done = .ok done' → Sorted g done → Path g path done →
      Walked g path done done' ∧ (id ∈ done' ∨ g.get? id = none))
    {ws : List (Option Wire)} {i : Nat} {done' : List NodeId}
    (h : walkInputs walk n i ws done = .ok done') (sorted : Sorted g done)
    (along : Path g path done) :
    Walked g path done done' ∧
      ∀ o ∈ ws, ∃ w, o = some w ∧ (w.source ∈ done' ∨ g.get? w.source = none) := by
  induction ws generalizing i done with
  | nil =>
    cases h
    exact ⟨⟨sorted, Subset.refl _, along⟩, by simp⟩
  | cons o ws ih =>
    cases o with
    | none => simp [walkInputs] at h
    | some w =>
      unfold walkInputs at h
      split at h
      case h_1 => simp at h
      case h_2 mid walked =>
        obtain ⟨first, source⟩ := step _ _ _ walked sorted along
        obtain ⟨later, sources⟩ := ih h first.sorted first.path
        refine ⟨⟨later.sorted, Subset.trans first.subset later.subset, later.path⟩, ?_⟩
        exact forall_mem_cons.2 ⟨⟨w, rfl, source.imp (fun h => later.subset h) id⟩, sources⟩

theorem walk_ok (wf : g.WellFormed) (fuel : Nat) (path : List Node) (id : NodeId)
    (done done' : List NodeId) (h : walk g fuel path id done = .ok done') (sorted : Sorted g done)
    (along : Path g path done) (enough : g.size < path.length + fuel) :
    Walked g path done done' ∧ (id ∈ done' ∨ g.get? id = none) := by
  induction fuel generalizing path id done done' with
  | zero =>
    have := along.length_le
    omega
  | succ fuel ih =>
    unfold walk at h
    split at h
    case h_1 missing =>
      cases h
      exact ⟨⟨sorted, Subset.refl _, along⟩, .inr missing⟩
    case h_2 n found =>
      obtain rfl := wf.id_eq found
      split at h
      · cases h
      case isFalse fresh =>
        split at h
        case isTrue known =>
          cases h
          exact ⟨⟨sorted, Subset.refl _, along⟩, .inl (by simpa using known)⟩
        case isFalse unknown =>
          split at h
          · cases h
          case h_2 sound =>
            split at h
            · cases h
            case h_2 mid walked =>
              cases h
              obtain ⟨inner, sources⟩ := walkInputs_ok
                (fun id done done' h sorted along =>
                  ih (n :: path) id done done' h sorted along (by rw [length_cons]; omega))
                walked sorted (along.cons found fresh (by simpa using unknown))
              have new : n.id ∉ mid := inner.path.pending n (.head _)
              have closed : Path g path (n.id :: mid) := by
                refine ⟨along.found, along.nodup, ?_⟩
                intro p on member
                rcases mem_cons.1 member with same | member
                · exact fresh (any_eq_true.2 ⟨p, on, beq_iff_eq.2 same⟩)
                · exact inner.path.pending p (.tail _ on) member
              exact ⟨⟨.cons found sound sources new inner.sorted,
                fun _ h => .tail _ (inner.subset h), closed⟩,
                .inl (.head _)⟩

theorem walkRoots_ok (wf : g.WellFormed) {roots : List Root}
    (h : walkRoots g roots done = .ok ()) (sorted : Sorted g done) :
    ∃ done', Sorted g done' ∧ done ⊆ done' ∧
      ∀ r ∈ roots, ∀ n, r.node.bind g.get? = some n → n.id ∈ done' ∧
        checkTargetShape r n = .ok () := by
  induction roots generalizing done with
  | nil => exact ⟨done, sorted, Subset.refl _, by simp⟩
  | cons r rest ih =>
    unfold walkRoots at h
    split at h
    case h_1 missing =>
      obtain ⟨done', sorted', subset, roots⟩ := ih h sorted
      refine ⟨done', sorted', subset, forall_mem_cons.2 ⟨fun n found => ?_, roots⟩⟩
      cases missing.symm.trans found
    case h_2 n found =>
      split at h
      case h_1 => simp at h
      case h_2 mid walked =>
        split at h
        case h_1 => simp at h
        case h_2 checked =>
          have start : Path g [] done := ⟨by simp, nodup_nil, by simp⟩
          obtain ⟨first, there⟩ := walk_ok wf _ [] n.id done mid walked sorted start (by simp)
          obtain ⟨id, -, found'⟩ := Option.bind_eq_some_iff.1 found
          have there : n.id ∈ mid := there.resolve_right (by rw [wf.id_eq found', found']; simp)
          obtain ⟨done', sorted', subset, roots⟩ := ih h first.sorted
          refine ⟨done', sorted', Subset.trans first.subset subset,
            forall_mem_cons.2 ⟨fun m found' => ?_, roots⟩⟩
          cases found.symm.trans found'
          exact ⟨subset there, checked⟩

theorem validate_sorted (wf : g.WellFormed) {roots : List Root} {required : List String}
    (h : g.validate roots required = .ok ()) :
    ∃ done, Sorted g done ∧ ∀ r ∈ roots, ∀ n, r.node.bind g.get? = some n → n.id ∈ done := by
  obtain ⟨seen, -, -, walked⟩ := validate_ok_iff.1 h
  obtain ⟨done, sorted, -, rooted⟩ := walkRoots_ok wf walked .nil
  exact ⟨done, sorted, fun r member n found => (rooted r member n found).1⟩

end

end Terrain
