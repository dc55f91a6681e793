import Terrain.Proofs.Accepts
import Terrain.Proofs.Invariant

/-!
# Compilations do not break down

A compilation makes a program or says what is wrong with the graph, with its shapes or with the
configuration.  Generating a node by itself may break down: at a missing operand whose shape it
names, at a cache that is met again while it is computed, on a walk that never ends.  Validation
rules all of this out.  Its order of the nodes bounds the depth of the walk, and a cache that is
still being computed is above everything that is generated for it.

* `Failure.IsVerdict`   a failure that finds fault with the input;
* `SparesGraph`         a refusal that finds fault with shapes or with the configuration only;
* `Safe`                a step that only refuses, for reasons of one kind;
* `Settles`             a generation leaves no cache unfinished that it began;
* `Clear`               caches that are being computed are above a node;
* `emit_safe`           generating a node that was found sound refuses no graph;
* `compile_refused`     so a compilation refuses a graph only where validation does;
* `compile_verdict`     and a compilation of outputs that are in the graph does not break down;
* `routineNames_eq`     the library has the routines that a typed node asks for by name.
-/

namespace Terrain

open List

variable {e : CompileError} {roots : List Root} {reduction : Int}
variable {g : Graph} {id : NodeId} {done : List NodeId} {n : Node} {ws : List Wire}
  {rest : List Shape}

/-- the failure finds fault with the graph, with its shapes or with the configuration -/
def Failure.IsVerdict : Failure → Prop
  | .refused e => e.blame ≠ .other
  | .fault _ => False

def CompileError.SparesGraph (e : CompileError) : Prop :=
  e.blame = .shape ∨ e.blame = .configuration

theorem CompileError.SparesGraph.blame_ne (h : e.SparesGraph) : e.blame ≠ .other := by
  rcases h with h | h <;> rw [h] <;> exact nofun

instance (f : Failure) : Decidable f.IsVerdict := by
  cases f <;> unfold Failure.IsVerdict <;> infer_instance

/-! ## validation -/

theorem walk_blame {fuel : Nat} {path : List Node}
    (h : Validate.walk g fuel path id done = .error e) : e.blame ≠ .other := by
  induction fuel generalizing path id done with
  | zero => cases h
  | succ fuel ih =>
    obtain ⟨n, -, ⟨-, rfl⟩ | ⟨fault, -, rfl⟩ | ⟨k, rfl⟩ | ⟨w, done', -, failed⟩⟩ := walk_error h
    · exact nofun
    · exact nofun
    · exact nofun
    · exact ih failed

theorem validate_blame {required : List String} (h : g.validate roots required = .error e) :
    e.blame ≠ .other := by
  rcases validate_error h with targets | ⟨t, rfl⟩ | walked
  · obtain ⟨t, rfl | rfl | rfl | rfl⟩ := checkTargets_error targets <;> exact nofun
  · exact nofun
  · obtain ⟨r, -, n, -, ⟨want, rfl⟩ | ⟨done, failed⟩⟩ := walkRoots_error walked
    · exact nofun
    · exact walk_blame failed

theorem exists_map_some {α : Type} {l : List (Option α)} (h : ∀ o ∈ l, ∃ a, o = some a) :
    ∃ as : List α, l = as.map some := by
  induction l with
  | nil => exact ⟨[], rfl⟩
  | cons o l ih =>
    obtain ⟨a, rfl⟩ := h o (.head _)
    obtain ⟨as, rfl⟩ := ih fun o member => h o (.tail _ member)
    exact ⟨a :: as, rfl⟩

theorem Sorted.node (sorted : Sorted g done) (found : g.get? n.id = some n) (member : n.id ∈ done) :
    Validate.nodeFault n = none ∧ ∀ o ∈ n.inputs, ∃ w, o = some w := by
  induction sorted with
  | nil => cases member
  | @cons x done n' found' sound inputs new rest ih =>
    rcases mem_cons.1 member with same | member
    · rw [same] at found
      cases found.symm.trans found'
      exact ⟨sound, fun o input => (inputs o input).imp fun _ h => h.1⟩
    · exact ih member

theorem Sorted.operands (sorted : Sorted g done) (wf : g.WellFormed) (found : g.get? n.id = some n)
    (member : n.id ∈ done) :
    ∃ ws : List Wire, n.inputs = ws.map some ∧
      ∀ w ∈ ws, w.source ∈ done ∧ rank done w.source < rank done n.id := by
  obtain ⟨ws, listed⟩ := exists_map_some (sorted.node found member).2
  refine ⟨ws, listed, fun w there => ?_⟩
  have input : some w ∈ n.inputs := listed ▸ mem_map_of_mem there
  obtain ⟨m, source, -⟩ := wf.wire found input
  exact sorted.input member found input source

theorem namedOperands_le {op : Op} {k : Nat} (takes : op.Takes k) : op.namedOperands k ≤ k := by
  cases op with
  | dot | cross | compare | cast | distance =>
    rw [takes]
    exact Nat.succ_le_succ (Nat.zero_le _)
  | primitive body =>
    rw [takes]
    cases body <;> decide
  | _ => simp [Op.namedOperands]

theorem structureComplete_of_operands (wf : g.WellFormed) (found : g.get? n.id = some n)
    (inputs : n.inputs = ws.map some) : n.structureComplete = true := by
  have leading (ws : List Wire) : (leadingShapes (ws.map some)).length = ws.length := by
    induction ws with
    | nil => rfl
    | cons w ws ih => exact congrArg Nat.succ ih
  have named : n.op.namedOperands n.inputs.length ≤ n.inputs.length := by
    rcases wf.takes found with takes | ⟨name, s, w, op, -⟩
    · exact namedOperands_le takes
    · rw [op]
      exact Nat.zero_le _
  unfold Node.structureComplete Node.operandBytes
  rw [beq_iff_eq, inputs, ← map_take, leading, length_take]
  rw [inputs, length_map] at named
  rw [length_map]
  exact Nat.min_eq_left named

namespace Compile

open Kernel Hash CompileError

/-! ## safe steps -/

section
variable {α β : Type} {P : CompileError → Prop} {c c' : Context}

def Safe (P : CompileError → Prop) (m : EmitM α) (c : Context) : Prop :=
  ∀ f c', outcome m c = (.error f, c') → ∃ e, f = .refused e ∧ P e

theorem safe_of_ok {m : EmitM α} {a : α} (h : outcome m c = (.ok a, c')) : Safe P m c := by
  intro e d failed
  cases h.symm.trans failed

theorem safe_pure (a : α) : Safe P (pure a) c := safe_of_ok (outcome_pure a c)

theorem safe_refuse (h : P e) : Safe P (refuse e : EmitM α) c := by
  intro e' d failed
  cases (outcome_throw (α := α) (.refused e) c).symm.trans failed
  exact ⟨e, rfl, h⟩

theorem Safe.mono {Q : CompileError → Prop} {m : EmitM α} (h : Safe P m c)
    (weaker : ∀ e, P e → Q e) :
    Safe Q m c := fun f c' failed => (h f c' failed).imp fun e both => ⟨both.1, weaker e both.2⟩

theorem Safe.bind {m : EmitM α} {f : α → EmitM β} (h : Safe P m c)
    (next : ∀ a c', Ran m c a c' → Safe P (f a) c') : Safe P (m >>= f) c := by
  intro e d failed
  rw [outcome_bind] at failed
  cases ran : outcome m c with
  | mk r c' =>
    rw [ran] at failed
    cases r with
    | ok a => exact next a c' ran e d failed
    | error e' =>
      cases failed
      exact h e _ ran

theorem safe_refuse_bind {f : α → EmitM β} (h : P e) : Safe P (refuse e >>= f) c :=
  (safe_refuse h).bind fun _ _ ran => absurd ran not_ran_refuse

theorem safe_get_bind {f : Context → EmitM β} (h : Safe P (f c) c) : Safe P (get >>= f) c := by
  intro e d failed
  rw [outcome_bind, outcome_get] at failed
  exact h e d failed

theorem safe_after {m : EmitM α} {f : α → EmitM β} {a : α} (ran : outcome m c = (.ok a, c'))
    (h : Safe P (f a) c') : Safe P (m >>= f) c := by
  refine (safe_of_ok ran).bind fun b d ran' => ?_
  obtain ⟨rfl, rfl⟩ := (ran_iff ran).1 ran'
  exact h

theorem Safe.onRefusal {m : EmitM α} {undo : EmitM Unit} (h : Safe P m c)
    (undone : ∀ d, ∃ d', outcome undo d = (.ok (), d')) : Safe P (onRefusal m undo) c := by
  intro e d failed
  rw [outcome_onRefusal] at failed
  cases ran : outcome m c with
  | mk r c' =>
    rw [ran] at failed
    cases r with
    | ok a => cases failed
    | error f =>
      obtain ⟨e', rfl, holds⟩ := h _ _ ran
      obtain ⟨d', after⟩ := undone c'
      dsimp only at failed
      rw [outcome_bind, after] at failed
      cases (outcome_throw (α := α) (.refused e') d').symm.trans failed
      exact ⟨e', rfl, holds⟩

end

/-! ## caches that are being computed -/

section
variable {c c' d : Context} {g : Graph} {done : List NodeId} {fuel : Nat} {n : Node}

def Settles (c c' : Context) : Prop :=
  ∀ p ∈ c'.caches, (c'.entry p.2).outputs = [] → p ∈ c.caches ∧ (c.entry p.2).outputs = []

def Clear (done : List NodeId) (c : Context) (id : NodeId) : Prop :=
  ∀ p ∈ c.caches, (c.entry p.2).outputs = [] → rank done id < rank done p.1

theorem Settles.of_same (entries : c'.entries = c.entries) (caches : c'.caches = c.caches) :
    Settles c c' := by
  intro p member opened
  unfold Context.entry at opened
  rw [caches] at member
  rw [entries] at opened
  exact ⟨member, opened⟩

theorem Clear.settles (h : Clear done c id) (s : Settles c c') : Clear done c' id :=
  fun p member opened => h p (s p member opened).1 (s p member opened).2

theorem Clear.below {id' : NodeId} (h : Clear done c id) (lower : rank done id' < rank done id) :
    Clear done c id' := fun p member opened => lower.trans (h p member opened)

theorem settles_readAgain (k : Kept c) (reader id : DispatchId) :
    Settles c (c.readAgain reader id) := by
  intro p member opened
  rw [readAgain_caches] at member
  obtain ⟨_, same⟩ := entry_readAgain c reader id (k.caches p member).2
  rw [same] at opened
  exact ⟨member, opened⟩

theorem Change.settles (h : Change c c') (k : Kept c) (stack : c'.stack = c.stack)
    (buffers : c'.buffers = c.buffers) : Settles c c' := by
  cases h with
  | readAgain node reader id => exact settles_readAgain k reader id
  | cacheOpened => exact absurd stack (cons_ne_self _ _)
  | cacheClosed | rooted => exact absurd (append_right_eq_self.1 buffers) (cons_ne_nil _ _)
  | _ => exact .of_same rfl rfl

theorem respected_settles : Respected fun c c' => Kept c → Kept c' ∧ Settles c c' where
  refl c k := ⟨k, .of_same rfl rfl⟩
  trans h h' k := by
    obtain ⟨kd, first⟩ := h k
    obtain ⟨kc, second⟩ := h' kd
    refine ⟨kc, fun p member opened => ?_⟩
    obtain ⟨before, opened⟩ := second p member opened
    exact first p before opened
  change h stack buffers k := ⟨h.kept k, h.settles k stack buffers⟩
  cache {c d n reader reduction s} reads unknown h k := by
    obtain ⟨kd, inner⟩ := h (k.cacheOpened n reader reduction reads unknown)
    refine ⟨(Change.cacheClosed _ _ _ _ _).kept kd, fun p member opened => ?_⟩
    have listed : p ∈ d.caches := member
    rw [entry_cacheClosed _ _ _ _ _ (kd.caches p listed).2] at opened
    by_cases own : c.entries.size = p.2
    · rw [if_pos own] at opened
      simp at opened
    · rw [if_neg own] at opened
      obtain ⟨before, unfinished⟩ := inner p listed opened
      rcases mem_cons.1 before with rfl | before
      · exact absurd rfl own
      · rw [entry_cacheOpened_of_lt n reader reduction (k.caches p before).2] at unfinished
        exact ⟨before, unfinished⟩

theorem emit_settles {s : Symbol} (h : Ran (emitWithin g fuel id) c s c') (k : Kept c) :
    Settles c c' := (emit_respected respected_settles h k).2

theorem Visits.length_eq {visit : Visit} {ws : List (Option Wire)} {ss : List Symbol}
    (h : Visits visit ws c ss c') : ss.length = ws.length := by
  induction h with
  | nil => rfl
  | cons _ _ ih => exact congrArg Nat.succ ih

/-! ## generation -/

/-- generating a node that was found sound refuses shapes and configurations only -/
def SafeVisit (done : List NodeId) (fuel : Nat) (visit : Visit) : Prop :=
  ∀ id c, id ∈ done → rank done id < fuel → Kept c → Clear done c id → Safe SparesGraph (visit id) c

theorem safe_visitAll (step : SafeVisit done fuel (emitWithin g fuel)) {i : Nat}
    {missing : Nat → CompileError}
    (lower : ∀ w ∈ ws, w.source ∈ done ∧ rank done w.source < rank done n.id)
    (bound : rank done n.id ≤ fuel) (k : Kept c) (clear : Clear done c n.id) :
    Safe SparesGraph (visitAll (emitWithin g fuel) missing i (ws.map some)) c := by
  induction ws generalizing i c with
  | nil => exact safe_pure _
  | cons w ws ih =>
    obtain ⟨member, less⟩ := lower w (.head _)
    refine (step w.source c member (by omega) k (clear.below less)).bind fun s d ran => ?_
    have k' := (emit_reaches ran).kept k
    refine (ih (fun w there => lower w (.tail _ there)) k'
      (clear.settles (emit_settles ran k))).bind fun more d' _ => ?_
    exact safe_pure _

theorem safe_emitInputs (step : SafeVisit done fuel (emitWithin g fuel))
    (inputs : n.inputs = ws.map some)
    (lower : ∀ w ∈ ws, w.source ∈ done ∧ rank done w.source < rank done n.id)
    (bound : rank done n.id ≤ fuel) (k : Kept c) (clear : Clear done c n.id) :
    Safe SparesGraph (emitInputs (emitWithin g fuel) n) c := by
  unfold emitInputs
  rw [inputs, emitInputsFrom_eq]
  refine (safe_visitAll step lower bound k clear).bind fun ss d _ => ?_
  split
  · exact safe_refuse (.inl rfl)
  · exact safe_pure _

section
variable (step : SafeVisit done fuel (emitWithin g fuel)) {ws : List Wire}
  (lower : ∀ w ∈ ws, w.source ∈ done ∧ rank done w.source < rank done n.id)
  (bound : rank done n.id ≤ fuel) (k : Kept c) (clear : Clear done c n.id)
include step lower bound k clear

/-- calling a nested function always succeeds, so only its inputs matter -/
theorem safe_emitNested (spec : Nested) (t : Template) :
    Safe SparesGraph (emitNested (emitWithin g fuel) spec (ws.map some) (templateBody t)) c := by
  unfold emitNested
  rw [mapM_visitWire 0]
  refine (safe_visitAll step lower bound k clear).bind fun ss d _ => ?_
  cases known : d.nested.lookup spec.key with
  | some id => exact safe_of_ok (outcome_callNested_again _ _ ss known)
  | none => exact safe_of_ok (outcome_callNested_first _ t ss known)

end

theorem safe_cacheDispatch (step : SafeVisit done fuel (emitWithin g fuel)) {w : Wire}
    (lower : w.source ∈ done ∧ rank done w.source < rank done n.id) (bound : rank done n.id ≤ fuel)
    (k : Kept c) (clear : Clear done c n.id) :
    Safe SparesGraph (cacheDispatch (emitWithin g fuel) n w.source reduction) c := by
  obtain ⟨reader, -, reads, -⟩ := k.dispatch c.current k.current.1 k.current.2
  cases known : c.caches.lookup n.id with
  | some id => exact safe_of_ok (outcome_cacheDispatch_again reads known)
  | none =>
    have k' := k.cacheOpened n reader reduction reads known
    have inside := (k.reader reads).1
    have inner : Safe SparesGraph (emitWithin g fuel w.source)
        (c.cacheOpened n reader reduction) := by
      refine step _ _ lower.1 (by omega) k' fun p member opened => ?_
      rcases mem_cons.1 member with rfl | member
      · exact lower.2
      · rw [entry_cacheOpened_of_lt n reader reduction (k.caches p member).2] at opened
        exact lower.2.trans (clear p member opened)
    intro e d failed
    rw [outcome_cacheDispatch_first reads known] at failed
    cases ran : outcome (emitWithin g fuel w.source) (c.cacheOpened n reader reduction) with
    | mk r d' =>
      rw [ran] at failed
      cases r with
      | ok s => cases failed
      | error f =>
        obtain ⟨e, rfl, spares⟩ := inner _ _ ran
        cases failed
        exact ⟨e, rfl, spares⟩

theorem CacheOf.finished {value : NodeId} {id : DispatchId}
    (h : CacheOf (emitWithin g fuel) n value reduction c id c') (k : Kept c)
    (clear : Clear done c n.id) : (c'.entry id).outputs ≠ [] := by
  cases h with
  | @again reader _ reads known =>
    obtain ⟨_, same⟩ := entry_readAgain c reader id (k.cache known).2
    rw [same]
    exact fun opened => lt_irrefl _ (clear _ (mem_of_lookup known) opened)
  | @first d reader s reads unknown body =>
    have inside : c.entries.size < d.entries.size :=
      lt_of_lt_of_le (size_cacheOpened c n reader reduction ▸ lt_add_one _)
        (emit_reaches body).grows.entries
    rw [entry_cacheClosed _ _ _ _ _ inside, if_pos rfl]
    simp

theorem safe_emitCache (step : SafeVisit done fuel (emitWithin g fuel)) {w : Wire}
    (inputs : n.inputs = [some w]) (lower : w.source ∈ done ∧ rank done w.source < rank done n.id)
    (bound : rank done n.id ≤ fuel) (k : Kept c) (clear : Clear done c n.id) :
    Safe SparesGraph (emitCache (emitWithin g fuel) n reduction) c := by
  unfold emitCache
  dsimp only
  split
  · exact safe_refuse_bind (.inr rfl)
  rw [inputs]
  split
  case h_1 => exact safe_refuse (.inl rfl)
  case h_3 other => exact absurd rfl (other _)
  case h_2 σ w' typed same =>
    cases same
    refine safe_get_bind ?_
    split
    case isFalse lost => exact absurd k.current.2 lost
    case isTrue placed =>
      refine (safe_cacheDispatch step lower bound k clear).bind fun id d ran => ?_
      refine safe_get_bind ?_
      split
      case h_1 empty => exact absurd empty ((cacheDispatch_ran ran).finished k clear)
      case h_2 => exact safe_of_ok rfl

theorem length_of_takes (wf : g.WellFormed) {arity : Nat} (found : g.get? n.id = some n)
    (inputs : n.inputs = ws.map some) (takes : ∀ k, n.op.Takes k → k = arity)
    (inner : n.op.isLeaf = false) : ws.length = arity := by
  rcases wf.takes found with h | ⟨name, s, w, op, -⟩
  · rw [inputs, length_map] at h
    exact takes _ h
  · rw [op] at inner
    cases inner

theorem safe_emitConstant (v : Value) : Safe SparesGraph (emitConstant n v) c := by
  unfold emitConstant
  split
  case isFalse => exact safe_refuse (.inl rfl)
  case isTrue =>
    refine safe_get_bind ?_
    split
    · exact safe_pure _
    · exact safe_of_ok rfl

theorem safe_emitInject (name : String) (shape : Shape) (fallback : Option Value) :
    Safe SparesGraph (emitInject name shape fallback) c := by
  unfold emitInject
  split
  case isFalse => exact safe_refuse (.inr rfl)
  case isTrue =>
    refine safe_get_bind ?_
    dsimp only
    split
    · exact safe_refuse (.inr rfl)
    split
    case isFalse => exact safe_refuse (.inr rfl)
    case isTrue =>
      refine Safe.bind ?_ fun slot d _ => safe_pure _
      unfold injectedSlot
      refine safe_get_bind ?_
      split
      · dsimp only
        split
        · exact safe_pure _
        · exact safe_refuse (.inr rfl)
      · exact safe_of_ok rfl

theorem safe_emitOp (wf : g.WellFormed) (step : SafeVisit done fuel (emitWithin g fuel))
    (found : g.get? n.id = some n) (sound : Validate.nodeFault n = none)
    (inputs : n.inputs = ws.map some)
    (lower : ∀ w ∈ ws, w.source ∈ done ∧ rank done w.source < rank done n.id)
    (bound : rank done n.id ≤ fuel) (k : Kept c) (clear : Clear done c n.id) :
    Safe SparesGraph (emitOp (emitWithin g fuel) n) c := by
  have operands := safe_emitInputs step inputs lower bound k clear
  have length {ss : List Symbol} {d : Context}
      (ran : Ran (emitInputs (emitWithin g fuel) n) c ss d) : ss.length = ws.length := by
    rw [(emitInputs_ran ran).1.length_eq, inputs, length_map]
  -- a nested function is called where the inputs have been generated once already
  have nested {ss : List Symbol} {d : Context} (ran : Ran (emitInputs (emitWithin g fuel) n) c ss d)
      (r : Routine) (spec : Nested) (t : Template) :
      Safe SparesGraph
        (do require r; emitNested (emitWithin g fuel) spec n.inputs (templateBody t)) d := by
    have visits := (emitInputs_ran ran).1
    have settled := clear.settles
      (visits.respected respected_settles (emit_respected respected_settles) k).2
    refine safe_after (outcome_modify _ _) ?_
    rw [inputs]
    exact safe_emitNested step lower bound ((Change.required d r).kept (visits.reaches.kept k))
      (settled.settles (.of_same rfl rfl)) spec t
  unfold emitOp
  split
  case h_1 op =>
    unfold Validate.nodeFault at sound
    rw [op] at sound
    cases sound
  case h_2 =>
    refine safe_get_bind ?_
    dsimp only
    split
    · exact safe_pure _
    case isFalse lost => exact absurd k.current.2 lost
  case h_3 v op => exact safe_emitConstant v
  case h_4 name shape fallback op => exact safe_emitInject name shape fallback
  case h_5 name shape op =>
    split
    case h_2 other =>
      -- a reference that was found sound has its operand
      unfold Validate.nodeFault at sound
      rw [op, inputs] at sound
      cases ws with
      | nil => cases sound
      | cons w ws => exact absurd inputs (other w (ws.map some))
    case h_1 w rest only =>
      have member : w ∈ ws := by
        have input : some w ∈ ws.map some := inputs ▸ only ▸ .head _
        simpa using input
      obtain ⟨there, less⟩ := lower w member
      refine (step w.source c there (by omega) k (clear.below less)).bind fun s d _ => ?_
      split
      · exact safe_pure _
      · exact safe_refuse (.inl rfl)
  case h_6 target op =>
    have one := length_of_takes wf found inputs (by rw [op]; exact fun _ h => h) (by rw [op]; rfl)
    refine operands.bind fun ss d ran => ?_
    obtain ⟨s, rfl⟩ := length_eq_one_iff.1 ((length ran).trans one)
    dsimp only
    split
    · exact safe_pure _
    · exact safe_of_ok (outcome_declare _ _ _)
  case h_7 metric op =>
    have two := length_of_takes wf found inputs (by rw [op]; exact fun _ h => h) (by rw [op]; rfl)
    refine operands.bind fun ss d ran => ?_
    obtain ⟨a, b, rfl⟩ := length_eq_two.1 ((length ran).trans two)
    exact safe_of_ok rfl
  case h_8 kind octaves op =>
    refine operands.bind fun ss d ran => ?_
    dsimp only
    split
    · exact safe_refuse_bind (.inr rfl)
    · exact nested ran _ _ _
  case h_9 metric feature op => exact operands.bind fun ss d ran => nested ran _ _ _
  case h_10 reduction op =>
    have one := length_of_takes wf found inputs (by rw [op]; exact fun _ h => h) (by rw [op]; rfl)
    obtain ⟨w, rfl⟩ := length_eq_one_iff.1 one
    exact safe_emitCache step inputs (lower w (.head _)) bound k clear
  case h_11 =>
    refine operands.bind fun ss d _ => ?_
    exact safe_after (outcome_forM_require _ _) (safe_of_ok (outcome_declare _ _ _))

/-- generating a node that was found sound is safe: the walk is no deeper than its place
in the order -/
theorem emit_safe (wf : g.WellFormed) (sorted : Sorted g done) (fuel : Nat) :
    SafeVisit done fuel (emitWithin g fuel) := by
  induction fuel with
  | zero => exact fun _ _ _ less => absurd less (Nat.not_lt_zero _)
  | succ fuel ih =>
    intro id c member less k clear
    obtain ⟨n, found⟩ := sorted.found member
    obtain rfl := wf.id_eq found
    obtain ⟨ws, inputs, lower⟩ := sorted.operands wf found member
    unfold emitWithin
    rw [found]
    show Safe SparesGraph (emitNode (emitWithin g fuel) n) c
    unfold emitNode
    refine safe_get_bind ?_
    dsimp only
    split
    case h_1 => exact safe_of_ok rfl
    case h_2 =>
      refine safe_after (outcome_fold _ _) ?_
      rw [if_pos (structureComplete_of_operands wf found inputs)]
      refine (safe_emitOp wf ih found ((sorted.node found member).1) inputs lower (by omega)
        ((Change.fold c _).kept k) (clear.settles (.of_same rfl rfl))).bind fun s d _ => ?_
      exact safe_of_ok rfl

/-! ## compilations -/

/-- no cache is left unfinished -/
def AllFinished (c : Context) : Prop := ∀ p ∈ c.caches, (c.entry p.2).outputs ≠ []

theorem safe_emitRoots (wf : g.WellFormed) (sorted : Sorted g done)
    (there : ∀ r ∈ roots, ∃ n, r.node.bind g.get? = some n ∧ n.id ∈ done) (k : Kept c)
    (all : AllFinished c) : Safe SparesGraph (roots.forM (emitRoot g 0)) c := by
  induction roots generalizing c with
  | nil => exact safe_pure _
  | cons r rest ih =>
    obtain ⟨n, found, member⟩ := there r (.head _)
    have less : rank done n.id < 2 * g.size + 2 := by
      have := rank_lt_length member
      have := length_le_size sorted.nodup fun id member => sorted.found member
      omega
    have head : Safe SparesGraph (emitRoot g 0 r) c := by
      unfold emitRoot
      rw [found]
      refine safe_after (outcome_fold _ _) ?_
      refine (emit_safe wf sorted _ n.id _ member less ((Change.fold c _).kept k) ?_).bind
        fun s d _ => ?_
      · exact fun p listed opened => absurd opened (all p listed)
      · exact safe_of_ok rfl
    refine head.bind fun _ d ran => ?_
    obtain ⟨n', s, d', -, emitted, rfl⟩ := emitRoot_ran ran
    have k' := (emit_reaches emitted).kept ((Change.fold c _).kept k)
    have settles := emit_settles emitted ((Change.fold c _).kept k)
    refine ih (fun r member => there r (.tail _ member)) ((Change.rooted _ _ _ _).kept k')
      fun p listed opened => ?_
    have inside := (k'.caches p listed).2
    have stored : ((d'.stored r.target n'.shape s).outputAdded 0 r.target n'.shape).entry p.2 = _ :=
      entry_outputAdded (d'.stored r.target n'.shape s) 0 r.target n'.shape inside
    rw [show (d'.rooted r n'.shape s).entry p.2 = _ from stored,
      if_neg (ne_of_lt (k'.caches p listed).1)] at opened
    obtain ⟨before, unfinished⟩ := settles p listed opened
    exact all p before unfinished

theorem RootsRan.stack (h : RootsRan g roots c c') : c'.stack = c.stack := by
  induction h with
  | nil c => rfl
  | cons found ran tail ih =>
    have stack := emit_respected respected_stack ran
    exact ih.trans stack

/-- a refusal for a reason that validation did not see finds no fault with the graph -/
def Refusal (g : Graph) (roots : List Root) (o : Options) (e : CompileError) : Prop :=
  g.validate roots o.requiredOutputs = .error e ∨ e.SparesGraph

theorem safe_parse (wf : g.WellFormed) (o : Options)
    (there : ∀ r ∈ roots, ∀ id, r.node = some id → (g.get? id).isSome = true) :
    Safe (Refusal g roots o) (parse g roots) (Context.new o) := by
  have generated : Safe (Refusal g roots o) (emitRoots g roots)
      { Context.new o with phase := .parsing } := by
    unfold emitRoots
    refine safe_get_bind ?_
    dsimp only
    by_cases large : Options.maxWorkgroup < (Context.new o).options.workgroupSize
    · rw [if_pos large]
      exact safe_refuse_bind (.inr (.inr rfl))
    rw [if_neg large]
    cases valid : g.validate roots (Context.new o).options.requiredOutputs with
    | error e => exact safe_refuse_bind (.inl valid)
    | ok u =>
      obtain ⟨done, sorted, reached⟩ := validate_sorted wf valid
      have rooted : ∀ r ∈ roots, ∃ n, r.node.bind g.get? = some n ∧ n.id ∈ done := by
        intro r member
        obtain ⟨id, node⟩ := Option.isSome_iff_exists.1 ((validate_fits valid).1 r member).bound
        obtain ⟨n, found⟩ := Option.isSome_iff_exists.1 (there r member id node)
        have bound : r.node.bind g.get? = some n := by rw [node]; exact found
        exact ⟨n, bound, reached r member n bound⟩
      show Safe (Refusal g roots o) (roots.forM (emitRoot g 0) >>= fun _ => popScope >>=
        fun _ => get >>= fun c =>
        if c.stack.length ≠ 0 then refuse (.openScopes c.stack.length) else pure ())
          (Context.opened o)
      refine ((safe_emitRoots wf sorted rooted (kept_opened o) nofun).mono fun _ => .inr).bind
        fun _ d ran => ?_
      have closed : d.stack.tail = [] := by
        rw [(rootsRan_of_forM ran).stack]
        rfl
      refine safe_after (outcome_modify _ _) (safe_get_bind ?_)
      rw [if_neg (by simp [closed])]
      exact safe_pure _
  have parsed : Safe (Refusal g roots o)
    (onRefusal (emitRoots g roots) (setPhase .failed) >>= fun _ =>
      modify arrange >>= fun _ => setPhase .sorted) { Context.new o with phase := .parsing } :=
    (generated.onRefusal fun d => ⟨_, outcome_modify _ d⟩).bind fun _ _ _ => safe_of_ok rfl
  exact parsed

end

end Compile

section
variable {g : Graph} (built : g.Built) (o : Compile.Options)
  (there : ∀ r ∈ roots, ∀ id, r.node = some id → (g.get? id).isSome = true)
include built o there

theorem compile_refused {f : Failure}
    (h : g.compile roots o = .error f) : ∃ e, f = .refused e ∧ Compile.Refusal g roots o e := by
  have safe := Compile.safe_parse built.wellFormed o there
  rw [Compile.compile_eq] at h
  unfold Graph.parsed at h
  split at h
  · cases h
  case h_2 e' c ran =>
    cases h
    exact safe _ _ ran

theorem compile_verdict {e : Failure} (h : g.compile roots o = .error e) : e.IsVerdict := by
  obtain ⟨e', rfl, invalid | spares⟩ := compile_refused built o there h
  · exact validate_blame invalid
  · exact spares.blame_ne

end

/-! ## routines and lanes

Generation asks for routines by names that it puts together, and takes as many names of lanes as a
point has.  For a typed node both are there. -/

namespace Node

open Kernel

/-- the routines that the code of a node calls -/
def routines (n : Node) : List Routine :=
  match n.op with
  | .fractal kind _ => [noiseRoutine kind (n.inputShape 0)]
  | .cellular _ _ => [scatterRoutine (n.inputShape 0)]
  | .cache _ => [.cacheIndex]
  | _ => Compile.termRoutines n

/-- the names that they are asked for by -/
def routineNames (n : Node) : List String :=
  match n.op with
  | .rotation op => [op.routineName]
  | .noise kind | .fractal kind _ => ["vg_" ++ kind.name ++ toString n.dims.count.toNat]
  | .primitive .sphere | .primitive .plane => []
  | .primitive body => ["vg_sdf_" ++ body.name]
  | .combine op true => [if op = .union then "vg_smooth_min" else "vg_smooth_max"]
  | .cellular _ _ => [if n.dims = .two then "vg_hash22" else "vg_hash33"]
  | .cache _ => ["vg_cache_index"]
  | _ => []

/-- how many names of lanes the code of a node takes, if it takes any -/
def lanesTaken (n : Node) : Option Nat :=
  match n.op with
  | .distance _ => some (n.inputShape 0).lanes
  | .cellular _ _ => some n.dims.count.toNat
  | _ => none

end Node

theorem ofName?_name (r : Kernel.Routine) : Kernel.Routine.ofName? r.name = some r := by
  cases r <;> decide

theorem ran_requireNamed (r : Kernel.Routine) (c : Compile.Context) :
    ∃ c', Compile.Ran (Compile.requireNamed r.name) c () c' := by
  unfold Compile.requireNamed
  rw [ofName?_name]
  exact ⟨_, Compile.outcome_modify _ c⟩

section
variable {g : Graph} {n : Node} {ws : List Wire}

section
variable (inputs : n.inputs = ws.map some)
include inputs

theorem inputShape_zero {s : Shape} {rest : List Shape}
    (shapes : ws.map Wire.shape = s :: rest) : n.inputShape 0 = s := by
  cases ws with
  | nil => cases shapes
  | cons w ws =>
    unfold Node.inputShape
    rw [inputs]
    exact (List.cons.inj shapes).1

theorem dims_point (typed : n.typing = .ok n.shape) {p : Shape}
    (shapes : ws.map Wire.shape = p :: rest) (vector : p.isVector = true) :
    p = .vec2 ∧ n.dims = .two ∨ p = .vec3 ∧ n.dims = .three := by
  have dims : n.dims = (p.dims?).getD ⟨0⟩ := by
    unfold Node.dims
    rw [typed, inputShape_zero inputs shapes]
  rw [dims]
  cases p with
  | vec2 => exact .inl ⟨rfl, rfl⟩
  | vec3 => exact .inr ⟨rfl, rfl⟩
  | _ => cases vector

theorem name_noiseRoutine (typed : n.typing = .ok n.shape)
    {kind : NoiseKind} (known : ∀ k, kind ≠ .unknown k) {p : Shape}
    (shapes : ws.map Wire.shape = p :: rest) (vector : p.isVector = true) :
    "vg_" ++ kind.name ++ toString n.dims.count.toNat =
      (Kernel.noiseRoutine kind (n.inputShape 0)).name := by
  rw [inputShape_zero inputs shapes]
  rcases dims_point inputs typed shapes vector with ⟨rfl, two⟩ | ⟨rfl, three⟩
  · rw [two]
    cases kind with
    | unknown k => exact absurd rfl (known k)
    | _ => decide
  · rw [three]
    cases kind with
    | unknown k => exact absurd rfl (known k)
    | _ => decide

end

section
variable (wf : g.WellFormed) (found : g.get? n.id = some n) (inputs : n.inputs = ws.map some)
  (typed : n.typing = .ok n.shape)
include wf found inputs typed

theorem routineNames_eq : n.routineNames = n.routines.map Kernel.Routine.name := by
  have accepts := wf.accepts found inputs typed
  generalize shapes : ws.map Wire.shape = sh at accepts
  generalize n.shape = σ at accepts
  unfold Node.routineNames Node.routines Compile.termRoutines
  cases op : n.op with
  | noise kind =>
    rw [op] at accepts
    cases accepts rfl with
    | noise known vector =>
      simp only [name_noiseRoutine inputs typed known shapes vector, map_cons, map_nil]
  | fractal kind octaves =>
    rw [op] at accepts
    cases accepts rfl with
    | fractal known vector =>
      simp only [name_noiseRoutine inputs typed known shapes vector, map_cons, map_nil]
  | cellular metric feature =>
    rw [op] at accepts
    cases accepts rfl with
    | cellular known listed vector =>
      simp only [inputShape_zero inputs shapes]
      rcases dims_point inputs typed shapes vector with ⟨rfl, two⟩ | ⟨rfl, three⟩
      · rw [two]
        rfl
      · rw [three]
        rfl
  | rotation r => cases r <;> rfl
  | primitive body => cases body <;> simp [Primitive.name, Kernel.Routine.name]
  | combine c smooth => cases c <;> cases smooth <;> rfl
  | _ => rfl

theorem lanesTaken_le {k : Nat}
    (taken : n.lanesTaken = some k) : 1 ≤ k ∧ k ≤ Kernel.Expr.laneNames.length := by
  have accepts := wf.accepts found inputs typed
  generalize shapes : ws.map Wire.shape = sh at accepts
  generalize n.shape = σ at accepts
  unfold Node.lanesTaken at taken
  cases op : n.op with
  | distance metric =>
    rw [op] at accepts taken
    cases accepts rfl with
    | @distance metric a known float =>
      cases taken
      rw [inputShape_zero inputs shapes]
      cases a with
      | float | vec2 | vec3 => decide
      | _ => cases float
  | cellular metric feature =>
    rw [op] at accepts taken
    cases accepts rfl with
    | cellular known listed vector =>
      cases taken
      rcases dims_point inputs typed shapes vector with ⟨-, two⟩ | ⟨-, three⟩
      · rw [two]
        decide
      · rw [three]
        decide
  | _ =>
    rw [op] at taken
    cases taken

end

end

end Terrain
