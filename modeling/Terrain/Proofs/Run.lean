import Terrain.Compile.Parse

/-!
# Running steps

A step takes a context to an outcome, a result or a failure, and to the context it leaves.  Here
is what each of the small steps does to a context, so that nothing below has to open the monad
again.

* `outcome m c`     the outcome of the step `m` on the context `c`;
* `Ran m c a c'`    the step succeeds with the result `a` and leaves `c'`;
* `ran_bind`        a sequence succeeds when its parts do, one after the other.
-/

namespace Terrain.Compile

open Kernel Hash

variable {c c' : Context}

section
variable {α β : Type}

/-! ## outcomes -/

/-- the outcome of a step on a context -/
def outcome (m : EmitM α) (c : Context) : Except Failure α × Context := m.run c

theorem outcome_pure (a : α) (c : Context) : outcome (pure a) c = (.ok a, c) := rfl

theorem outcome_throw (e : Failure) (c : Context) :
    outcome (throw e : EmitM α) c = (.error e, c) := rfl

theorem outcome_get (c : Context) : outcome get c = (.ok c, c) := rfl

theorem outcome_modify (f : Context → Context) (c : Context) :
    outcome (modify f) c = (.ok (), f c) := rfl

theorem outcome_bind (m : EmitM α) (f : α → EmitM β) (c : Context) :
    outcome (m >>= f) c = match outcome m c with
      | (.ok a, c') => outcome (f a) c'
      | (.error e, c') => (.error e, c') := by
  show (match m c with | (r, c') => ExceptT.bindCont f r c') = _
  unfold outcome ExceptT.run
  cases m c with
  | mk r c' => cases r <;> rfl

theorem outcome_tryCatch (body : EmitM α) (handle : Failure → EmitM α) (c : Context) :
    outcome (tryCatch body handle) c = match outcome body c with
      | (.ok a, c') => (.ok a, c')
      | (.error e, c') => outcome (handle e) c' := by
  unfold outcome ExceptT.run
  simp only [tryCatch, tryCatchThe, MonadExceptOf.tryCatch, ExceptT.tryCatch, ExceptT.mk, bind,
    StateT.bind]
  cases body c with
  | mk r c' => cases r <;> rfl

theorem outcome_onRefusal (body : EmitM α) (undo : EmitM Unit) (c : Context) :
    outcome (onRefusal body undo) c = match outcome body c with
      | (.ok a, c') => (.ok a, c')
      | (.error (.refused e), c') => outcome (undo >>= fun _ => throw (.refused e)) c'
      | (.error (.fault f), c') => (.error (.fault f), c') := by
  unfold onRefusal
  rw [outcome_tryCatch]
  cases outcome body c with
  | mk r c' =>
    cases r with
    | ok a => rfl
    | error e => cases e <;> rfl

theorem outcome_inScope (id : ScopeId) (body : EmitM α) (c : Context) :
    outcome (inScope id body) c = match outcome body { c with stack := id :: c.stack } with
      | (.ok a, c') => (.ok a, { c' with stack := c'.stack.tail })
      | (.error (.refused e), c') => (.error (.refused e), { c' with stack := c'.stack.tail })
      | (.error (.fault f), c') => (.error (.fault f), c') := by
  unfold inScope pushScope popScope
  rw [outcome_bind, outcome_modify]
  simp only
  rw [outcome_bind, outcome_onRefusal]
  cases outcome body { c with stack := id :: c.stack } with
  | mk r c' =>
    cases r with
    | ok a => rfl
    | error e => cases e <;> rfl

/-! ## successful steps -/

/-- the step succeeds on `c` with the result `a` and leaves `c'` -/
def Ran (m : EmitM α) (c : Context) (a : α) (c' : Context) : Prop := outcome m c = (.ok a, c')

theorem ran_iff {m : EmitM α} {d : Context} {a : α} (h : outcome m c = (.ok a, d)) {b : α} :
    Ran m c b c' ↔ b = a ∧ c' = d := by
  unfold Ran
  rw [h, Prod.mk.injEq, Except.ok.injEq]
  exact and_congr eq_comm eq_comm

theorem ran_pure {a b : α} : Ran (pure a) c b c' ↔ b = a ∧ c' = c :=
  ran_iff (outcome_pure a c)

theorem ran_modify {f : Context → Context} {u : Unit} : Ran (modify f) c u c' ↔ c' = f c :=
  (ran_iff (outcome_modify f c)).trans ⟨fun h => h.2, fun h => ⟨rfl, h⟩⟩

theorem not_ran_throw {e : Failure} {a : α} : ¬ Ran (throw e) c a c' := by
  unfold Ran
  rw [outcome_throw]
  simp

theorem not_ran_refuse {e : CompileError} {a : α} : ¬ Ran (refuse e) c a c' :=
  not_ran_throw

theorem ran_bind {m : EmitM α} {f : α → EmitM β} {c'' : Context} {b : β} :
    Ran (m >>= f) c b c'' ↔ ∃ a c', Ran m c a c' ∧ Ran (f a) c' b c'' := by
  unfold Ran
  rw [outcome_bind]
  cases outcome m c with
  | mk r c' =>
    cases r with
    | ok a =>
      constructor
      · intro h
        exact ⟨a, c', rfl, h⟩
      · rintro ⟨a', d, h, h'⟩
        cases h
        exact h'
    | error e => simp

theorem ran_get_bind {f : Context → EmitM β} {b : β} :
    Ran (get >>= f) c b c' ↔ Ran (f c) c b c' := by
  unfold Ran
  rw [outcome_bind, outcome_get]

theorem not_ran_refuse_bind {e : CompileError} {f : α → EmitM β} {b : β} :
    ¬ Ran (refuse e >>= f) c b c' := by
  intro h
  obtain ⟨_, _, refused, _⟩ := ran_bind.1 h
  exact not_ran_refuse refused

theorem ran_onRefusal {body : EmitM α} {undo : EmitM Unit} {a : α} :
    Ran (onRefusal body undo) c a c' ↔ Ran body c a c' := by
  unfold Ran
  rw [outcome_onRefusal]
  cases outcome body c with
  | mk r d =>
    cases r with
    | ok b => rfl
    | error e =>
      cases e with
      | refused e =>
        dsimp only
        rw [outcome_bind]
        cases outcome undo d with
        | mk r d' => cases r <;> simp [outcome_throw]
      | fault f => simp

end

end Terrain.Compile
