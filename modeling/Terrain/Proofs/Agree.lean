import Terrain.Proofs.View

/-!
# Two runs side by side

Two steps agree on two contexts when both succeed or both fail, failures are related, and what
they leave stands in the same relation as before.  Agreement follows the structure of steps, so
two runs of one definition on related inputs are compared rule by rule.

* `SameKind`         failures that find fault with the same thing;
* `Failure.Alike`    failures that may say the same, up to the numbers of nodes;
* `Agree F R Q`      agreement, with `F` between failures, `R` between the contexts and `Q` between
                     the results;
* `Agree.bind`       sequences agree when their parts do.
-/

namespace Terrain

def SameKind : Failure → Failure → Prop
  | .refused e, .refused e' => e.blame = e'.blame ∧ (e.blame = .other → e = e')
  | .fault f, .fault f' => f = f'
  | _, _ => False

theorem SameKind.refl (e : Failure) : SameKind e e := by
  cases e with
  | refused e => exact ⟨rfl, fun _ => rfl⟩
  | fault f => rfl

/-- without the numbers of nodes -/
def CompileError.unnumbered : CompileError → CompileError
  | .structural (some (_, kind)) (.cycle _) => .structural (some (0, kind)) (.cycle [])
  | .structural (some (_, kind)) fault => .structural (some (0, kind)) fault
  | .shape _ kind fault => .shape 0 kind fault
  | e => e

def Failure.unnumbered : Failure → Failure
  | .refused e => .refused e.unnumbered
  | .fault f => .fault f

def Failure.Alike (V : Prop) (e e' : Failure) : Prop :=
  SameKind e e' ∧ (V → e.unnumbered = e'.unnumbered)

theorem Failure.Alike.refl {V : Prop} (e : Failure) : Failure.Alike V e e := ⟨.refl e, fun _ => rfl⟩

namespace Compile

section
variable {α β γ δ : Type}

/-- outcomes that agree -/
def Matched (F : Failure → Failure → Prop) (R : Context → Context → Prop) (Q : α → β → Prop) :
    Except Failure α × Context → Except Failure β × Context → Prop
  | (.ok a, c), (.ok b, d) => Q a b ∧ R c d
  | (.error e, c), (.error e', d) => F e e' ∧ R c d
  | _, _ => False

/-- two steps agree on two contexts -/
def Agree (F : Failure → Failure → Prop) (R : Context → Context → Prop) (Q : α → β → Prop)
    (m : EmitM α) (c : Context) (m' : EmitM β) (d : Context) : Prop :=
  Matched F R Q (outcome m c) (outcome m' d)

variable {F F' : Failure → Failure → Prop} {R : Context → Context → Prop} {Q : α → β → Prop}
  {Q' : γ → δ → Prop} {c d : Context}

theorem Agree.mono {m : EmitM α} {m' : EmitM β} (h : Agree F R Q m c m' d)
    (weaker : ∀ e e', F e e' → F' e e') : Agree F' R Q m c m' d := by
  unfold Agree at h ⊢
  generalize outcome m c = x at h
  generalize outcome m' d = y at h
  obtain ⟨x | a, c'⟩ := x <;> obtain ⟨y | b, d'⟩ := y
  · exact ⟨weaker _ _ h.1, h.2⟩
  · exact h.elim
  · exact h.elim
  · exact h

theorem Agree.of_ok {m : EmitM α} {m' : EmitM β} {a : α} {b : β} {c' d' : Context}
    (h : outcome m c = (.ok a, c')) (h' : outcome m' d = (.ok b, d')) (result : Q a b)
    (contexts : R c' d') : Agree F R Q m c m' d := by
  unfold Agree
  rw [h, h']
  exact ⟨result, contexts⟩

theorem Agree.pure {a : α} {b : β} (result : Q a b) (contexts : R c d) :
    Agree F R Q (pure a : EmitM α) c (pure b : EmitM β) d := ⟨result, contexts⟩

theorem Agree.refuse {e e' : CompileError} (same : F (.refused e) (.refused e'))
    (contexts : R c d) :
    Agree F R Q (refuse e : EmitM α) c (refuse e' : EmitM β) d := ⟨same, contexts⟩

theorem Agree.throw {e e' : Failure} (same : F e e') (contexts : R c d) :
    Agree F R Q (throw e : EmitM α) c (throw e' : EmitM β) d := ⟨same, contexts⟩

theorem Agree.get {f : Context → EmitM γ} {f' : Context → EmitM δ}
    (h : Agree F R Q' (f c) c (f' d) d) :
    Agree F R Q' (MonadState.get >>= f) c (MonadState.get >>= f') d := by
  unfold Agree
  rw [outcome_bind, outcome_bind, outcome_get, outcome_get]
  exact h

theorem Agree.bind {m : EmitM α} {m' : EmitM β} {f : α → EmitM γ} {f' : β → EmitM δ}
    (h : Agree F R Q m c m' d)
    (rest : ∀ a b c' d', Q a b → R c' d' → Agree F R Q' (f a) c' (f' b) d') :
    Agree F R Q' (m >>= f) c (m' >>= f') d := by
  unfold Agree at h ⊢
  rw [outcome_bind, outcome_bind]
  cases hm : outcome m c with
  | mk x c' =>
    cases hm' : outcome m' d with
    | mk y d' =>
      rw [hm, hm'] at h
      cases x with
      | ok a =>
        cases y with
        | ok b => exact rest a b c' d' h.1 h.2
        | error e => exact h.elim
      | error e =>
        cases y with
        | ok b => exact h.elim
        | error e' => exact h

theorem Agree.modify_bind {f f' : Context → Context} {m : PUnit → EmitM γ} {m' : PUnit → EmitM δ}
    (h : Agree F R Q' (m ()) (f c) (m' ()) (f' d)) :
    Agree F R Q' (modify f >>= m) c (modify f' >>= m') d := by
  unfold Agree
  rw [outcome_bind, outcome_bind, outcome_modify, outcome_modify]
  exact h

theorem Agree.refuse_bind {e e' : CompileError} {f : α → EmitM γ} {f' : β → EmitM δ}
    (same : F (.refused e) (.refused e')) (contexts : R c d) :
    Agree F R Q' (Compile.refuse e >>= f) c (Compile.refuse e' >>= f') d :=
  Agree.bind (Q := fun _ _ => False) (Agree.refuse same contexts) fun _ _ _ _ h => h.elim

theorem Agree.onRefusal {m : EmitM α} {m' : EmitM β} {undo undo' : Context → Context}
    (apart : ∀ e f, ¬ F (.refused e) (.fault f) ∧ ¬ F (.fault f) (.refused e))
    (h : Agree F R Q m c m' d) (undone : ∀ c' d', R c' d' → R (undo c') (undo' d')) :
    Agree F R Q (onRefusal m (modify undo)) c (onRefusal m' (modify undo')) d := by
  unfold Agree at h ⊢
  rw [outcome_onRefusal, outcome_onRefusal]
  cases hm : outcome m c with
  | mk x c' =>
    cases hm' : outcome m' d with
    | mk y d' =>
      rw [hm, hm'] at h
      cases x with
      | ok a =>
        cases y with
        | ok b => exact h
        | error e => exact h.elim
      | error e =>
        cases y with
        | ok b => exact h.elim
        | error e' =>
          obtain ⟨kind, contexts⟩ := h
          cases e with
          | fault f =>
            cases e' with
            | fault f' => exact ⟨kind, contexts⟩
            | refused b => exact absurd kind (apart b f).2
          | refused a =>
            cases e' with
            | fault f => exact absurd kind (apart a f).1
            | refused b => exact ⟨kind, undone c' d' contexts⟩

end

end Compile
end Terrain
