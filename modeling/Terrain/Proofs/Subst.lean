import Mathlib.Data.List.Forall2
import Terrain.Compile.Parse

/-!
# Terms and their operands

The term of a node is built from the expressions of its operands and never looks into them.  So it
keeps every relation of expressions that operators and calls keep; above all, it can be built first
and have symbols replaced afterwards, or the other way round.

* `Congruent`        a relation that is kept by what terms are made of;
* `congruent_term`   terms of related operands are related;
* `Expr.subst`       replaces every symbol by an expression;
* `term_subst`       terms commute with substitution;
* `metric_subst`     and so do lengths of differences.
-/

namespace Terrain.Kernel

open List

/-- a function of the language, or the offset of the seed -/
def Callee.isBuiltin : Callee → Bool
  | .unary op => op ≠ .neg
  | .binary op => op ∉ [.add, .sub, .mul, .div, .mod]
  | .convert _ | .routine _ => false
  | _ => true

/-- a relation of expressions that is kept by operators, by calls of some functions, and
by some lanes -/
structure Congruent (Q : Expr → Expr → Prop) (F : Callee → Prop) (M : String → Prop) : Prop where
  literal : ∀ t ∈ ["", "0", "1", "0.0", "1.0"], Q (.literal t) (.literal t)
  neg : ∀ {a a'}, Q a a' → Q (.neg a) (.neg a')
  not : ∀ {a a'}, Q a a' → Q (.not a) (.not a')
  group : ∀ {a a'}, Q a a' → Q (.group a) (.group a')
  op : ∀ {o a a' b b'}, Q a a' → Q b b' → Q (.op o a b) (.op o a' b')
  call0 : ∀ {f}, F f → Q (.call0 f) (.call0 f)
  call1 : ∀ {f a a'}, F f → Q a a' → Q (.call1 f a) (.call1 f a')
  call2 : ∀ {f a a' b b'}, F f → Q a a' → Q b b' → Q (.call2 f a b) (.call2 f a' b')
  call3 : ∀ {f a a' b b' c c'}, F f → Q a a' → Q b b' → Q c c' →
    Q (.call3 f a b c) (.call3 f a' b' c')
  lanes : ∀ {a a' mask}, M mask → Q a a' → Q (.lanes a mask) (.lanes a' mask)
  builtin : ∀ f : Callee, f.isBuiltin = true → F f
  mask : ∀ m ∈ ["x", "y", "z", "xz"], M m

section
variable {Q : Expr → Expr → Prop} {F : Callee → Prop} {M : String → Prop} (C : Congruent Q F M)
  {a b : Expr} (h : Q a b)
include C h

theorem Congruent.widen {s t : Shape} (target : F (.convert t)) :
    Q (.widen s t a) (.widen s t b) := by
  unfold Expr.widen
  split
  · exact C.call1 target h
  · exact h

theorem Congruent.seeded (s : Shape) : Q (.seeded a s) (.seeded b s) := by
  have seed := C.call0 (C.builtin .seed rfl)
  unfold Expr.seeded
  split
  · exact C.group (C.op h (C.lanes (C.mask _ (by simp)) seed))
  · exact C.group (C.op h seed)

theorem Congruent.metric (m : Metric) {s : Shape} (target : F (.convert s)) :
    Q (.metric m a s) (.metric m b s) := by
  have size {e e' : Expr} (h : Q e e') : Q (.call1 (.unary .abs) e) (.call1 (.unary .abs) e') :=
    C.call1 (C.builtin _ rfl) h
  have lane {l : String} (known : l ∈ Expr.laneNames) :
      Q (.call1 (.unary .abs) (.lanes a l)) (.call1 (.unary .abs) (.lanes b l)) :=
    size (C.lanes (C.mask l (mem_append_left ["xz"] known)) h)
  have fold (lanes : List String) (known : ∀ l ∈ lanes, l ∈ Expr.laneNames)
      {e e' : Expr} (h' : Q e e') :
      Q (lanes.foldl (fun e l => .call2 (.binary .max) e (.call1 (.unary .abs) (.lanes a l))) e)
        (lanes.foldl (fun e l =>
            .call2 (.binary .max) e (.call1 (.unary .abs) (.lanes b l))) e') := by
    induction lanes generalizing e e' with
    | nil => exact h'
    | cons l lanes ih =>
      obtain ⟨first, rest⟩ := forall_mem_cons.1 known
      exact ih rest (C.call2 (C.builtin _ rfl) h' (lane first))
  unfold Expr.metric
  dsimp only
  split
  · exact size h
  split
  · exact C.call2 (C.builtin _ rfl) (size h) (C.call1 target (C.literal _ (by simp)))
  · exact fold _ (fun l member => mem_of_mem_take (mem_of_mem_drop member)) (lane (.head _))
  · exact C.call1 (C.builtin _ rfl) h

end

namespace Expr

def subst (σ : Symbol → Expr) : Expr → Expr
  | sym s => σ s
  | literal t => literal t
  | neg e => neg (e.subst σ)
  | not e => not (e.subst σ)
  | op o a b => op o (a.subst σ) (b.subst σ)
  | call0 f => call0 f
  | call1 f a => call1 f (a.subst σ)
  | call2 f a b => call2 f (a.subst σ) (b.subst σ)
  | call3 f a b c => call3 f (a.subst σ) (b.subst σ) (c.subst σ)
  | lanes e mask => lanes (e.subst σ) mask
  | sample buffer index => sample buffer (index.subst σ)
  | group e => group (e.subst σ)

end Expr

theorem congruent_subst (σ : Symbol → Expr) :
    Congruent (fun e e' => e.subst σ = e') (fun _ => True) fun _ => True := by
  constructor <;> simp +contextual [Expr.subst]

theorem Expr.metric_subst (σ : Symbol → Expr) (m : Metric) (delta : Expr) (s : Shape) :
    (metric m delta s).subst σ = metric m (delta.subst σ) s :=
  (congruent_subst σ).metric rfl m trivial

end Terrain.Kernel

namespace Terrain.Compile

open Kernel List

section
variable {Q : Expr → Expr → Prop} {F : Callee → Prop} {M : String → Prop} (C : Congruent Q F M)
  {es es' : List Expr}
include C

theorem congruent_arith (op : BinaryOp) {a a' b b' : Expr} (ha : Q a a') (hb : Q b b') :
    Q (Term.arith op a b) (Term.arith op a' b') := by
  cases op <;> first | exact C.op ha hb | exact C.call2 (C.builtin _ rfl) ha hb

theorem congruent_cast (s : Shape) {t : Shape} {a a' : Expr} (h : Q a a')
    (target : F (.convert t)) : Q (Term.cast s t a) (Term.cast s t a') := by
  unfold Term.cast
  split
  · exact C.op h (C.literal _ (by simp))
  · exact C.op h (C.literal _ (by simp))
  · exact C.call3 (C.builtin _ rfl) (C.literal _ (by simp)) (C.literal _ (by simp)) h
  · exact C.call3 (C.builtin _ rfl) (C.literal _ (by simp)) (C.literal _ (by simp)) h
  · exact C.call1 target h

variable (operands : Forall₂ Q es es')
include operands

theorem congruent_apply {f : Callee} (known : F f) : Q (Term.apply f es) (Term.apply f es') := by
  rcases operands with _ | ⟨a, _ | ⟨b, _ | ⟨c, _ | _⟩⟩⟩
  · exact C.call0 known
  · exact C.call1 known a
  · exact C.call2 known a b
  · exact C.call3 known a b c
  · exact C.call0 known

theorem congruent_blend (op : BlendOp) : Q (Term.blend op es) (Term.blend op es') := by
  have nothing := C.literal "" (.head _)
  have call {f : Callee} (known : f.isBuiltin = true) := C.builtin f known
  rcases operands with _ | ⟨a, _ | ⟨b, _ | ⟨c, _ | ⟨d, _ | ⟨e, _ | _⟩⟩⟩⟩⟩ <;> cases op <;>
    first
    | exact nothing
    | exact C.call3 (call rfl) a b c
    | exact C.op d (C.op (C.op (C.group (C.op a b)) (C.group (C.op e d))) (C.group (C.op c b)))

theorem congruent_primitive {n : Node} {body : Primitive} (is : n.op = .primitive body)
    (routines : ∀ r ∈ termRoutines n, F (.routine r)) :
    Q (Term.primitive body es) (Term.primitive body es') := by
  have nothing := C.literal "" (.head _)
  have call {f : Callee} (known : f.isBuiltin = true) := C.builtin f known
  unfold termRoutines at routines
  rw [is] at routines
  cases body with
  | sphere =>
    rcases operands with _ | ⟨a, _ | ⟨b, _ | _⟩⟩ <;>
      first | exact nothing | exact C.op (C.call1 (call rfl) a) b
  | plane =>
    rcases operands with _ | ⟨a, _ | ⟨b, _ | ⟨c, _ | _⟩⟩⟩ <;>
      first | exact nothing | exact C.op (C.call2 (call rfl) a (C.call1 (call rfl) b)) c
  | box | torus | cylinder => exact congruent_apply C operands (routines _ (.head _))

theorem congruent_combine {n : Node} {op : CombineOp} {smooth : Bool}
    (is : n.op = .combine op smooth) (routines : ∀ r ∈ termRoutines n, F (.routine r)) :
    Q (Term.combine op smooth es) (Term.combine op smooth es') := by
  have nothing := C.literal "" (.head _)
  have call {f : Callee} (known : f.isBuiltin = true) := C.builtin f known
  unfold termRoutines at routines
  rw [is] at routines
  rcases operands with _ | ⟨a, _ | ⟨b, _ | ⟨c, _ | _⟩⟩⟩ <;> cases op <;> cases smooth <;>
    first
    | exact nothing
    | exact C.call2 (call rfl) a b
    | exact C.call2 (call rfl) a (C.neg b)
    | exact C.call3 (routines _ (.head _)) a b c
    | exact C.call3 (routines _ (.head _)) a (C.neg b) c

theorem congruent_widened {n : Node} (shape : F (.convert n.shape)) :
    Forall₂ Q (widened n es) (widened n es') := by
  refine forall₂_iff_get.2 ⟨by simp [widened, operands.length_eq], fun i inside inside' => ?_⟩
  simp only [widened, get_eq_getElem, getElem_mapIdx]
  exact C.widen (operands.get _ _) shape

/-- terms of related operands are related -/
theorem congruent_term {n : Node} (routines : ∀ r ∈ termRoutines n, F (.routine r))
    (shape : F (.convert n.shape)) (mask : ∀ m, n.op = .swizzle m → M m)
    (target : ∀ t, n.op = .cast t → F (.convert t)) : Q (term n es) (term n es') := by
  have nothing := C.literal "" (.head _)
  have call {f : Callee} (known : f.isBuiltin = true) := C.builtin f known
  have wide := congruent_widened C operands shape
  have own := routines
  unfold termRoutines at own
  unfold Compile.term
  cases is : n.op with
  | binary op =>
    dsimp only
    generalize widened n es = ws, widened n es' = ws' at wide
    rcases wide with _ | ⟨a, _ | ⟨b, _ | _⟩⟩ <;>
      first | exact nothing | exact congruent_arith C op a b
  | blend op => exact congruent_blend C wide op
  | construct => exact congruent_apply C operands shape
  | rotation op =>
    rw [is] at own
    cases op <;> exact congruent_apply C operands (own _ (.head _))
  | primitive body => exact congruent_primitive C operands is routines
  | combine op smooth => exact congruent_combine C operands is routines
  | cast t =>
    rcases operands with _ | ⟨a, _ | _⟩ <;>
      first | exact nothing | exact congruent_cast C _ a (target t is)
  | broadcast t =>
    rcases operands with _ | ⟨a, _ | _⟩ <;> first | exact nothing | exact C.widen a shape
  | noise kind =>
    rw [is] at own
    rcases operands with _ | ⟨a, _ | _⟩ <;>
      first | exact nothing | exact C.call1 (own _ (.head _)) (C.seeded a _)
  | swizzle m =>
    rcases operands with _ | ⟨a, _ | _⟩ <;> first | exact nothing | exact C.lanes (mask m is) a
  | unary op =>
    rcases operands with _ | ⟨a, _ | _⟩ <;> cases op <;>
      first | exact nothing | exact C.neg a | exact C.call1 (call rfl) a
  | logic op =>
    rcases operands with _ | ⟨a, _ | ⟨b, _ | _⟩⟩ <;> cases op <;>
      first | exact nothing | exact C.not a | exact C.op a b
  | _ =>
    rcases operands with _ | ⟨a, _ | ⟨b, _ | ⟨c, _ | _⟩⟩⟩ <;>
      first
      | exact nothing
      | exact C.call2 (call rfl) a b
      | exact C.op a b
      | exact C.call3 (call rfl) c b a

end

theorem congruent_any {Q : Expr → Expr → Prop} (C : Congruent Q (fun _ => True) fun _ => True)
    (n : Node) {a b : List Expr} (operands : Forall₂ Q a b) : Q (term n a) (term n b) :=
  congruent_term C operands (fun _ _ => trivial) trivial (fun _ _ => trivial) fun _ _ => trivial

theorem term_subst (σ : Symbol → Expr) (n : Node) (es : List Expr) :
    (term n es).subst σ = term n (es.map (Expr.subst σ)) :=
  congruent_any (congruent_subst σ) n (forall₂_map_right_iff.2 (forall₂_same.2 fun _ _ => rfl))

end Terrain.Compile
