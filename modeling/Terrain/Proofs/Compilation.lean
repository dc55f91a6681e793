import Terrain.Proofs.Rule

/-!
# A whole compilation

A compilation that succeeds has validated its outputs, generated them one after the other in the
root function, and arranged what it found.

* `Graph.parsed`     the context that a compilation leaves, or its failure;
* `compile_eq`       the program is made from that context alone;
* `compile_ok_iff`   so a compilation succeeds just when parsing does;
* `RootsRan`         the outputs, generated in order;
* `parsed_ok`        what a successful compilation went through.
-/

namespace Terrain

open Compile in
def Graph.parsed (g : Graph) (roots : List Root) (o : Options) : Except Failure Context :=
  match outcome (parse g roots) (Context.new o) with
  | (.ok _, c) => .ok c
  | (.error e, _) => .error e

/-- whether a computation succeeds with a result of some kind can be run -/
instance decidableExistsOk {ε α : Type} {p : α → Prop} [DecidablePred p] :
    (r : Except ε α) → Decidable (∃ a, r = .ok a ∧ p a)
  | .ok a =>
    decidable_of_iff (p a) ⟨fun h => ⟨a, rfl, h⟩, fun ⟨_, same, h⟩ => Except.ok.inj same ▸ h⟩
  | .error _ => isFalse fun ⟨_, same, _⟩ => nomatch same

namespace Compile

open Kernel Hash

namespace Context

/-- the context in which the outputs are generated: the main dispatch is there, and its function
is current -/
def opened (o : Options) : Context :=
  { new o with
    phase := .parsing
    scopes := #[{ placedScope mainDispatch [] with dispatch := some 0 }]
    stack := [rootId]
    entries := #[⟨mainDispatch, 0, .three, 0, [], rootId, []⟩]
    dispatches := [0]
    stream := (Stream.empty.fold ([Tag.workgroup] ++ Token.u32 (UInt32.ofInt o.workgroupSize))).fold
      ([Tag.dispatch] ++ Token.str mainDispatch ++ [Dims.three.count]) }

def stored (c : Context) (target : String) (shape : Shape) (s : Symbol) : Context :=
  c.modifyScope rootId fun f =>
    { f.push ⟨0, .store ("out_" ++ target) (.sym s)⟩ with
      args := f.args ++ [⟨"out_" ++ target, shape, true⟩] }

/-- the value of an output is stored and bound to its buffer -/
def rooted (c : Context) (r : Root) (shape : Shape) (s : Symbol) : Context :=
  (c.stored r.target shape s).outputAdded 0 r.target shape

/-- the context after the last output -/
def finished (c : Context) : Context :=
  { arrange { c with stack := c.stack.tail } with phase := .sorted }

end Context

/-- the bytes that announce an output -/
def rootBytes (r : Root) (n : Node) : List UInt8 :=
  [Tag.output] ++ Token.str r.target ++ [n.shape.code]

inductive RootsRan (g : Graph) : List Root → Context → Context → Prop
  | nil (c : Context) : RootsRan g [] c c
  | cons {r : Root} {rest : List Root} {n : Node} {s : Symbol} {c d c' : Context}
      (found : r.node.bind g.get? = some n)
      (ran : Ran (emit g n.id) (c.fold (rootBytes r n)) s d)
      (tail : RootsRan g rest (d.rooted r n.shape s) c') :
      RootsRan g (r :: rest) c c'

section
variable {g : Graph} {roots : List Root} {o : Options} {c c' : Context}

theorem emitRoot_ran {r : Root} (h : Ran (emitRoot g 0 r) c () c') :
    ∃ n s d, r.node.bind g.get? = some n ∧ Ran (emit g n.id) (c.fold (rootBytes r n)) s d ∧
      c' = d.rooted r n.shape s := by
  unfold emitRoot at h
  split at h
  case h_1 => exact absurd h not_ran_throw
  case h_2 n found =>
    obtain ⟨_, _, folded, h₁⟩ := ran_bind.1 h
    obtain rfl := ran_modify.1 folded
    obtain ⟨s, d, ran, h₂⟩ := ran_bind.1 h₁
    obtain ⟨-, rfl⟩ := (ran_iff rfl).1 h₂
    exact ⟨n, s, d, found, ran, rfl⟩

theorem rootsRan_of_forM (h : Ran (roots.forM (emitRoot g 0)) c () c') : RootsRan g roots c c' := by
  induction roots generalizing c with
  | nil =>
    obtain ⟨-, rfl⟩ := ran_pure.1 h
    exact .nil _
  | cons r rest ih =>
    obtain ⟨_, d, head, tail⟩ := ran_bind.1 h
    obtain ⟨n, s, d, found, ran, rfl⟩ := emitRoot_ran head
    exact .cons found ran (ih tail)

theorem emitRoots_ran (h : Ran (emitRoots g roots) { Context.new o with phase := .parsing } () c') :
    o.workgroupSize ≤ Options.maxWorkgroup ∧ g.validate roots o.requiredOutputs = .ok () ∧
      ∃ d, RootsRan g roots (Context.opened o) d ∧ c' = { d with stack := d.stack.tail } ∧
        d.stack.tail = [] := by
  have given : (Context.new o).options = o := rfl
  unfold emitRoots at h
  rw [ran_get_bind] at h
  dsimp only at h
  rw [given] at h
  by_cases large : Options.maxWorkgroup < o.workgroupSize
  · rw [if_pos large] at h
    exact absurd h not_ran_refuse_bind
  rw [if_neg large] at h
  cases valid : g.validate roots o.requiredOutputs with
  | error e =>
    rw [valid] at h
    exact absurd h not_ran_refuse_bind
  | ok u =>
    rw [valid] at h
    have h₁ : Ran (roots.forM (emitRoot g 0) >>= fun _ => popScope >>= fun _ => get >>= fun c =>
        if c.stack.length ≠ 0 then refuse (.openScopes c.stack.length) else pure ())
        (Context.opened o) () c' := h
    obtain ⟨_, d, ran, h₂⟩ := ran_bind.1 h₁
    obtain ⟨_, _, popped, h₃⟩ := ran_bind.1 h₂
    obtain rfl := ran_modify.1 popped
    rw [ran_get_bind] at h₃
    split at h₃
    case isTrue => exact absurd h₃ not_ran_refuse
    case isFalse closed =>
      obtain ⟨-, rfl⟩ := ran_pure.1 h₃
      exact ⟨by omega, rfl, d, rootsRan_of_forM ran, rfl,
        List.eq_nil_of_length_eq_zero (Decidable.not_not.1 closed)⟩

theorem parsed_ok (h : g.parsed roots o = .ok c) :
    o.workgroupSize ≤ Options.maxWorkgroup ∧ g.validate roots o.requiredOutputs = .ok () ∧
      ∃ d, RootsRan g roots (Context.opened o) d ∧ c = d.finished ∧ d.stack.tail = [] := by
  have ran : Ran (parse g roots) (Context.new o) () c := by
    unfold Graph.parsed at h
    unfold Ran
    split at h
    case h_1 u d ran =>
      obtain rfl : d = c := by simpa using h
      exact ran
    case h_2 => simp at h
  have h₁ : Ran (onRefusal (emitRoots g roots) (setPhase .failed) >>= fun _ =>
      modify arrange >>= fun _ => setPhase .sorted) { Context.new o with phase := .parsing } () c :=
        ran
  obtain ⟨_, _, emitted, h₂⟩ := ran_bind.1 h₁
  obtain ⟨small, valid, d, roots, rfl, closed⟩ := emitRoots_ran (ran_onRefusal.1 emitted)
  obtain ⟨-, rfl⟩ := (ran_iff rfl).1 h₂
  exact ⟨small, valid, d, roots, rfl, closed⟩

theorem compile_eq (g : Graph) (roots : List Root) (o : Options) :
    g.compile roots o = (g.parsed roots o).map Context.toProgram := by
  show (outcome (parse g roots >>= fun _ => program) (Context.new o)).1 = _
  rw [outcome_bind]
  cases h : outcome (parse g roots) (Context.new o) with
  | mk r c =>
    cases r with
    | error e => simp only [Graph.parsed, h, Except.map]
    | ok u =>
      have parsed : g.parsed roots o = .ok c := by simp only [Graph.parsed, h]
      obtain ⟨-, -, d, -, rfl, -⟩ := parsed_ok parsed
      rw [parsed]
      rfl

theorem compile_ok_iff {p : Program} :
    g.compile roots o = .ok p ↔ ∃ c, g.parsed roots o = .ok c ∧ p = c.toProgram := by
  rw [compile_eq]
  cases g.parsed roots o with
  | error e =>
    constructor
    · intro h
      cases h
    · rintro ⟨c, h, -⟩
      cases h
  | ok c =>
    constructor
    · intro h
      cases h
      exact ⟨c, rfl, rfl⟩
    · rintro ⟨c', h, rfl⟩
      cases h
      rfl

end

end Compile
end Terrain
