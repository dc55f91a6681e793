import Terrain.Proofs.Reads
import Terrain.Proofs.Subst

/-!
# The inline term of a node

What a node computes, written out as one term by plain recursion over the graph: nothing is shared
and nothing is remembered.  Parameters are reads of their slots, caches and nested functions are
left closed, and every other operation is its template over the terms of its operands.

* `Inline`                 terms;
* `Expr.fill`              an expression whose symbols are replaced by terms;
* `term_fill`              the expression of a node over symbols is its template over their terms;
* `Graph.inline`           the inline term of a node;
* `inlineWithin_mono`      which is the same for every bound that is large enough.
-/

namespace Terrain

open List

variable {α : Type} {t : Inline}

/-- what a table gives, a larger one gives too -/
def Extends {α β : Type} (f f' : α → Option β) : Prop := ∀ a b, f a = some b → f' a = some b

theorem Extends.refl {β : Type} (f : α → Option β) : Extends f f := fun _ _ h => h

theorem Extends.bind {β : Type} {f f' : α → Option β} (h : Extends f f') :
    Extends (fun o : Option α => o.bind f) fun o => o.bind f' := by
  intro o b known
  cases o with
  | none => cases known
  | some x => exact h _ _ known

namespace Kernel

/-! ## terms -/

/-- a value as one term, in which no local is left -/
inductive Inline where
  | position
  /-- a parameter slot, read at the lanes of a shape -/
  | slot (k : Nat) (shape : Shape)
  /-- the value of a cache, read at the position -/
  | cache (node : NodeId)
  /-- a nested function, told by the key that its uses share -/
  | function (key : String) (args : List Inline)
  | literal (text : String)
  | neg (e : Inline)
  | not (e : Inline)
  | op (o : Operator) (a b : Inline)
  | call0 (f : Callee)
  | call1 (f : Callee) (a : Inline)
  | call2 (f : Callee) (a b : Inline)
  | call3 (f : Callee) (a b c : Inline)
  | lanes (e : Inline) (mask : String)
  | group (e : Inline)

/-- the term of an expression, given the terms of symbols and what samples of buffers read -/
def Expr.fill (env : Symbol → Option Inline) (read : String → Expr → Option NodeId) :
    Expr → Option Inline
  | sym s => env s
  | literal t => some (.literal t)
  | neg e => (e.fill env read).map .neg
  | not e => (e.fill env read).map .not
  | op o a b => (a.fill env read).bind fun x => (b.fill env read).map (.op o x)
  | call0 f => some (.call0 f)
  | call1 f a => (a.fill env read).map (.call1 f)
  | call2 f a b => (a.fill env read).bind fun x => (b.fill env read).map (.call2 f x)
  | call3 f a b c => (a.fill env read).bind fun x => (b.fill env read).bind fun y =>
      (c.fill env read).map (.call3 f x y)
  | lanes e mask => (e.fill env read).map (.lanes · mask)
  | sample buffer index => (read buffer index).map .cache
  | group e => (e.fill env read).map .group

def Expr.symbols : Expr → List Symbol
  | sym s => [s]
  | literal _ | call0 _ => []
  | neg e | not e | group e | call1 _ e | lanes e _ | sample _ e => e.symbols
  | op _ a b | call2 _ a b => a.symbols ++ b.symbols
  | call3 _ a b c => a.symbols ++ b.symbols ++ c.symbols

section
variable {env env' : Symbol → Option Inline} {read read' : String → Expr → Option NodeId} {e : Expr}

theorem fill_mono (symbols : Extends env env')
    (reads : ∀ b i n, read b i = some n → read' b i = some n) (h : e.fill env read = some t) :
    e.fill env' read' = some t := by
  induction e generalizing t with
  | sym s => exact symbols s t h
  | literal | call0 => exact h
  | neg e ih | not e ih | group e ih | lanes e mask ih | call1 f e ih =>
    obtain ⟨x, known, rfl⟩ := Option.map_eq_some_iff.1 h
    exact Option.map_eq_some_iff.2 ⟨x, ih known, rfl⟩
  | op o a b iha ihb | call2 f a b iha ihb =>
    obtain ⟨x, first, rest⟩ := Option.bind_eq_some_iff.1 h
    obtain ⟨y, second, rfl⟩ := Option.map_eq_some_iff.1 rest
    exact Option.bind_eq_some_iff.2 ⟨x, iha first, Option.map_eq_some_iff.2 ⟨y, ihb second, rfl⟩⟩
  | call3 f a b c iha ihb ihc =>
    obtain ⟨x, first, rest⟩ := Option.bind_eq_some_iff.1 h
    obtain ⟨y, second, rest⟩ := Option.bind_eq_some_iff.1 rest
    obtain ⟨z, third, rfl⟩ := Option.map_eq_some_iff.1 rest
    exact Option.bind_eq_some_iff.2 ⟨x, iha first, Option.bind_eq_some_iff.2
      ⟨y, ihb second, Option.map_eq_some_iff.2 ⟨z, ihc third, rfl⟩⟩⟩
  | sample b index _ =>
    obtain ⟨n, known, rfl⟩ := Option.map_eq_some_iff.1 h
    exact Option.map_eq_some_iff.2 ⟨n, reads _ _ _ known, rfl⟩

variable (env env' read read')

/-- two expressions with one term -/
theorem congruent_fill : Congruent
    (fun e e' => ∃ t, e.fill env read = some t ∧ e'.fill env' read' = some t) (fun _ => True)
      fun _ => True := by
  constructor <;> simp +contextual [Expr.fill]

theorem congruent_symbols (ss : List Symbol) :
    Congruent (fun e _ => ∀ s ∈ e.symbols, s ∈ ss) (fun _ => True) fun _ => True := by
  constructor <;> simp +contextual [Expr.symbols, or_imp]

theorem metric_symbols (m : Metric) (delta : Expr) (shape : Shape) :
    ∀ s ∈ (Expr.metric m delta shape).symbols, s ∈ delta.symbols :=
  (congruent_symbols delta.symbols).metric (b := delta) (fun _ h => h) m trivial

end

end Kernel

namespace Compile

open Kernel

/-! ## templates -/

theorem term_symbols (n : Node) (ss : List Symbol) :
    ∀ s ∈ (term n (ss.map Expr.sym)).symbols, s ∈ ss :=
  congruent_any (congruent_symbols ss) n (b := ss.map Expr.sym)
    (forall₂_same.2 (by simp [Expr.symbols]))

def holes (k : Nat) : List Symbol := (List.range k).map fun i => .var (.input i)

/-- terms for the places of operands -/
def filling (args : List Inline) : Symbol → Option Inline
  | .var (.input i) => args[i]?
  | _ => none

/-- no sample is understood -/
def noRead : String → Expr → Option NodeId := fun _ _ => none

/-- what an operation computes, over the places of its operands -/
def Node.template (n : Node) : Expr :=
  match n.op with
  | .distance m => .metric m (.sub (.var (.input 0)) (.var (.input 1))) (n.inputShape 0)
  | _ => term n ((holes n.inputs.length).map Expr.sym)

/-- what an operation makes of the terms of its operands -/
def Node.applied (n : Node) (args : List Inline) : Option Inline :=
  (Node.template n).fill (filling args) noRead

/-- a term over symbols is what it is over the places of operands, with the terms of the
symbols put in -/
theorem term_fill {env : Symbol → Option Inline} {ss : List Symbol} {args : List Inline}
    (read : String → Expr → Option NodeId) (n : Node)
    (known : Forall₂ (fun s a => env s = some a) ss args) :
    ∃ t, (term n (ss.map Expr.sym)).fill env read = some t ∧
      (term n ((holes ss.length).map Expr.sym)).fill (filling args) noRead = some t := by
  refine congruent_any (congruent_fill env (filling args) read noRead) n ?_
  refine forall₂_map_left_iff.2 (forall₂_map_right_iff.2 (forall₂_iff_get.2 ⟨by simp [holes], ?_⟩))
  intro i inside _
  have inside' : i < args.length := known.length_eq ▸ inside
  exact ⟨args[i], known.get inside inside', by simp [holes, filling, Expr.fill, inside']⟩

end Compile

/-! ## inline terms of nodes -/

open Kernel Compile

/-- the slots of constants, by node, and of injected parameters, by name -/
structure Slots where
  constant : NodeId → Option Nat
  injected : String → Option Nat

/-- the terms of a list, if all of it have one -/
def gather {α : Type} (term : α → Option Inline) : List α → Option (List Inline)
  | [] => some []
  | x :: xs => (term x).bind fun a => (gather term xs).map (a :: ·)

/-- the inline term of a node, given those of its inputs -/
def Node.inlineBy (n : Node) (slots : Slots) (input : Wire → Option Inline) : Option Inline :=
  match n.op with
  | .position => some .position
  | .constant v => (slots.constant n.id).map (.slot · v.shape)
  | .inject name shape _ => (slots.injected name).map (.slot · shape)
  | .ref _ _ => (n.inputs.head?.join).bind input
  | .cache _ => some (.cache n.id)
  | .fractal _ _ | .cellular _ _ => (gather (·.bind input) n.inputs).map (.function (nestedKey n))
  | .cast target =>
    if n.inputShape 0 = target then (n.inputs.head?.join).bind input
    else (gather (·.bind input) n.inputs).bind (Compile.Node.applied n)
  | .unsupported _ _ => none
  | _ => (gather (·.bind input) n.inputs).bind (Compile.Node.applied n)

/-- the inline term of a node, down to a bounded depth -/
def Graph.inlineWithin (g : Graph) (slots : Slots) : Nat → NodeId → Option Inline
  | 0, _ => none
  | fuel + 1, id =>
    (g.get? id).bind fun n => n.inlineBy slots fun w => g.inlineWithin slots fuel w.source

/-- the inline term of a node; no chain of inputs is longer than the graph -/
def Graph.inline (g : Graph) (slots : Slots) (id : NodeId) : Option Inline :=
  g.inlineWithin slots (g.size + 1) id

section
variable {g : Graph} {slots slots' : Slots} {input input' : Wire → Option Inline} {n : Node}

theorem gather_mono {f f' : α → Option Inline} (h : Extends f f') :
    Extends (gather f) (gather f') := by
  intro xs
  induction xs with
  | nil => exact fun _ h => h
  | cons x xs ih =>
    intro args known
    obtain ⟨a, first, rest⟩ := Option.bind_eq_some_iff.1 known
    obtain ⟨as, tail, rfl⟩ := Option.map_eq_some_iff.1 rest
    exact Option.bind_eq_some_iff.2 ⟨a, h _ _ first, Option.map_eq_some_iff.2 ⟨as, ih as tail, rfl⟩⟩

theorem gather_eq {f : α → Option Inline} {xs : List α} {args : List Inline}
    (h : Forall₂ (fun x a => f x = some a) xs args) : gather f xs = some args := by
  induction h with
  | nil => rfl
  | @cons x a xs as head _ ih =>
    show (f x).bind _ = _
    rw [head]
    show (gather f xs).map (a :: ·) = _
    rw [ih]
    rfl

theorem gather_inputs {ws : List Wire} {args : List Inline}
    (h : Forall₂ (fun w a => input w = some a) ws args) :
    gather (·.bind input) (ws.map some) = some args :=
  gather_eq (forall₂_map_left_iff.2 h)

section
variable (constants : Extends slots.constant slots'.constant)
  (injected : Extends slots.injected slots'.injected)
include constants injected

theorem Node.inlineBy_mono (inputs : Extends input input') (h : n.inlineBy slots input = some t) :
    n.inlineBy slots' input' = some t := by
  have head : (n.inputs.head?.join).bind input = some t → (n.inputs.head?.join).bind input' =
      some t := inputs.bind _ t
  have applied : (gather (·.bind input) n.inputs).bind (Compile.Node.applied n) = some t →
      (gather (·.bind input') n.inputs).bind (Compile.Node.applied n) = some t := by
    intro known
    obtain ⟨args, all, rest⟩ := Option.bind_eq_some_iff.1 known
    exact Option.bind_eq_some_iff.2 ⟨args, gather_mono inputs.bind _ _ all, rest⟩
  have function : (gather (·.bind input) n.inputs).map (.function (nestedKey n)) = some t →
      (gather (·.bind input') n.inputs).map (.function (nestedKey n)) = some t := by
    intro known
    obtain ⟨args, all, rest⟩ := Option.map_eq_some_iff.1 known
    exact Option.map_eq_some_iff.2 ⟨args, gather_mono inputs.bind _ _ all, rest⟩
  unfold Node.inlineBy at h ⊢
  cases op : n.op with
  | position | cache => simpa only [op] using h
  | constant v =>
    rw [op] at h
    obtain ⟨k, known, rest⟩ := Option.map_eq_some_iff.1 h
    exact Option.map_eq_some_iff.2 ⟨k, constants _ _ known, rest⟩
  | inject name shape fallback =>
    rw [op] at h
    obtain ⟨k, known, rest⟩ := Option.map_eq_some_iff.1 h
    exact Option.map_eq_some_iff.2 ⟨k, injected _ _ known, rest⟩
  | ref => exact head (by simpa only [op] using h)
  | fractal | cellular => exact function (by simpa only [op] using h)
  | cast target =>
    simp only [op] at h
    dsimp only
    split at h
    case isTrue fits => rw [if_pos fits]; exact head h
    case isFalse differs => rw [if_neg differs]; exact applied h
  | unsupported => simp [op] at h
  | _ => exact applied (by simpa only [op] using h)

theorem inlineWithin_mono {fuel fuel' : Nat} (le : fuel ≤ fuel') {id : NodeId}
    (h : g.inlineWithin slots fuel id = some t) : g.inlineWithin slots' fuel' id = some t := by
  induction fuel generalizing fuel' id t with
  | zero => cases h
  | succ fuel ih =>
    obtain ⟨more, rfl⟩ := Nat.exists_eq_add_of_le' le
    obtain ⟨n, found, known⟩ := Option.bind_eq_some_iff.1 h
    refine Option.bind_eq_some_iff.2 ⟨n, found, ?_⟩
    exact Node.inlineBy_mono constants injected
      (fun w a known => ih (Nat.le_add_left _ _) known) known

end

end

end Terrain
