import Terrain.Kernel.Library
import Mathlib.Data.Set.Card
import Mathlib.Logic.Relation

/-!
# Orders of library routines

A set of routines is written in an order in which every routine stands behind the ones that it
calls.  The order is found by visiting what a routine calls before the routine itself.  A routine is
marked when it is met; chains of calls end because the rank falls along them, so what is marked and
not written yet ranks above what is visited, and is not met again.

* `Library.prefix_require`   requiring a routine keeps what was there;
* `Library.mem_require`      and the routine is there;
* `Library.closed_required`  with all that it calls;
* `Library.Ordered`          each routine once, behind what it calls;
* `Library.visited_visit`    a visit keeps this, and the visited routine is there;
* `Routine.writingOrder_ordered`, `mem_writingOrder`   so the routines of a program are ordered;
* `resolves_required`        and they are those that were required.
-/

namespace Terrain.Kernel

namespace Library

open List

variable {ρ : Type} (lib : Library ρ)

/-! ## orders -/

/-- each routine once, behind the ones it calls -/
structure Ordered (order : List ρ) : Prop where
  nodup : order.Nodup
  callees : ∀ before r after, order = before ++ r :: after → ∀ d ∈ lib.calls r, d ∈ before

/-- what the routines of a set call is in the set -/
def Closed (set : List ρ) : Prop := ∀ r ∈ set, ∀ d ∈ lib.calls r, d ∈ set

theorem Ordered.nil : lib.Ordered [] := ⟨.nil, by simp⟩

section
variable {lib} {order : List ρ}

theorem Ordered.snoc (h : lib.Ordered order) {r : ρ} (new : r ∉ order)
    (callees : ∀ d ∈ lib.calls r, d ∈ order) : lib.Ordered (order ++ [r]) := by
  refine ⟨nodup_append.2 ⟨h.nodup, nodup_singleton r, ?_⟩, fun before x after split => ?_⟩
  · rintro a member b last rfl
    exact new (mem_singleton.1 last ▸ member)
  · -- the routine is the new one, or it stood in the order before
    rcases eq_nil_or_concat after with rfl | ⟨rest, last, rfl⟩
    · obtain rfl : order = before := append_inj_left' split rfl
      obtain rfl : r = x := head_eq_of_cons_eq (append_inj_right' split rfl)
      exact callees
    · rw [concat_eq_append, ← cons_append, ← append_assoc] at split
      exact h.callees before x rest (append_inj_left' split rfl)

end

/-- what is written is marked, and what is marked beside it is still being visited -/
structure Pending (opened : List ρ) (s : Sweep ρ) : Prop where
  ordered : lib.Ordered s.order
  marked : s.order ⊆ s.done
  rest : ∀ r ∈ s.done, r ∈ s.order ∨ r ∈ opened

/-- what visits keep: the order grows by routines of a set that were not marked, all that are marked
now, and has those that were visited -/
structure Visited (set rs : List ρ) (s s' : Sweep ρ) : Prop where
  ordered : lib.Ordered s'.order
  grows : s.order <+: s'.order
  there : rs ⊆ s'.order
  added : ∀ r ∈ s'.order, r ∈ s.order ∨ r ∈ set ∧ r ∉ s.done
  done : ∀ r, r ∈ s'.done ↔ r ∈ s.done ∨ r ∈ s'.order

section
variable {lib} {set rs opened : List ρ} {s s' : Sweep ρ}

theorem Pending.visited (h : lib.Pending opened s) (there : rs ⊆ s.order) :
    lib.Visited set rs s s :=
  ⟨h.ordered, prefix_rfl, there, fun _ => .inl,
    fun _ => ⟨.inl, (·.elim id fun written => h.marked written)⟩⟩

theorem Visited.pending (h : lib.Visited set rs s s') (pending : lib.Pending opened s) :
    lib.Pending opened s' := by
  refine ⟨h.ordered, fun x written => (h.done x).2 (.inr written), fun x mark => ?_⟩
  rcases (h.done x).1 mark with early | written
  · exact (pending.rest x early).imp_left fun written => h.grows.subset written
  · exact .inl written

end

/-! ## sets -/

theorem prefix_foldl {f : List ρ → ρ → List ρ} (rs : List ρ) (set : List ρ)
    (step : ∀ r ∈ rs, ∀ set, set <+: f set r) : set <+: rs.foldl f set := by
  induction rs generalizing set with
  | nil => exact prefix_rfl
  | cons r rs ih =>
    have first := step r (.head _) set
    exact first.trans (ih _ fun r member => step r (.tail _ member))

variable [DecidableEq ρ]

theorem require_eq (set : List ρ) (r : ρ) :
    lib.require set r =
      if set.contains r then set else (lib.calls r).foldl lib.require (set ++ [r]) := by
  rw [require, foldl_attach]

theorem prefix_require (set : List ρ) (r : ρ) : set <+: lib.require set r := by
  induction rank : lib.rank r using Nat.strongRecOn generalizing set r with
  | ind k ih =>
    rw [require_eq]
    split
    · exact prefix_rfl
    · refine (prefix_append set [r]).trans (prefix_foldl _ _ fun d member set => ?_)
      exact ih (lib.rank d) (rank ▸ lib.falls r d member) set d rfl

theorem mem_require (set : List ρ) (r : ρ) : r ∈ lib.require set r := by
  rw [require_eq]
  split
  case isTrue known => exact contains_iff_mem.1 known
  case isFalse =>
    have kept := prefix_foldl (lib.calls r) (set ++ [r]) fun d _ set => lib.prefix_require set d
    exact kept.subset (by simp)

/-- what was added comes with all that it calls -/
def Brings (set set' : List ρ) : Prop := ∀ r ∈ set', r ∈ set ∨ ∀ d ∈ lib.calls r, d ∈ set'

theorem brings_foldl (rs set : List ρ)
    (step : ∀ r ∈ rs, ∀ set, lib.Brings set (lib.require set r)) :
    lib.Brings set (rs.foldl lib.require set) ∧ rs ⊆ rs.foldl lib.require set := by
  induction rs generalizing set with
  | nil => exact ⟨fun _ => .inl, nofun⟩
  | cons r rs ih =>
    have kept := prefix_foldl rs (lib.require set r) fun d _ set => lib.prefix_require set d
    obtain ⟨added, there⟩ := ih (lib.require set r) fun r member => step r (.tail _ member)
    refine ⟨fun x member => ?_, cons_subset.2 ⟨kept.subset (lib.mem_require set r), there⟩⟩
    rcases added x member with early | calls
    · exact (step r (.head _) set x early).imp_right fun calls d call => kept.subset (calls d call)
    · exact .inr calls

theorem brings_require (set : List ρ) (r : ρ) : lib.Brings set (lib.require set r) := by
  induction rank : lib.rank r using Nat.strongRecOn generalizing set r with
  | ind k ih =>
    rw [require_eq]
    split
    · exact fun _ => .inl
    · obtain ⟨added, there⟩ := lib.brings_foldl (lib.calls r) (set ++ [r]) fun d member set =>
        ih (lib.rank d) (rank ▸ lib.falls r d member) set d rfl
      intro x member
      rcases added x member with early | calls
      · rcases mem_append.1 early with early | last
        · exact .inl early
        · rw [mem_singleton.1 last]
          exact .inr there
      · exact .inr calls

theorem closed_required (asked : List ρ) : lib.Closed (asked.foldl lib.require []) :=
  fun r member =>
  ((lib.brings_foldl asked [] fun r _ set => lib.brings_require set r).1 r member).resolve_left
    not_mem_nil

/-! ## visits -/

theorem visit_eq (s : Sweep ρ) (r : ρ) :
    lib.visit s r = if s.done.contains r then s else
      let s := (lib.calls r).foldl lib.visit { s with done := r :: s.done }
      { s with order := s.order ++ [r] } := by
  rw [visit, foldl_attach]

variable {lib} {set rs opened : List ρ} {s : Sweep ρ}

theorem visited_foldl (h : lib.Pending opened s)
    (step : ∀ r ∈ rs, ∀ s, lib.Pending opened s → lib.Visited set [r] s (lib.visit s r)) :
    lib.Visited set rs s (rs.foldl lib.visit s) := by
  induction rs generalizing s with
  | nil => exact h.visited nofun
  | cons r rs ih =>
    have first := step r (.head _) s h
    have rest := ih (first.pending h) fun r member => step r (.tail _ member)
    refine ⟨rest.ordered, first.grows.trans rest.grows, cons_subset.2 ⟨?_, rest.there⟩,
      fun x member => ?_, fun x => ?_⟩
    · exact rest.grows.subset (first.there (.head _))
    · rcases rest.added x member with early | ⟨own, new⟩
      · exact first.added x early
      · exact .inr ⟨own, fun early => new ((first.done x).2 (.inl early))⟩
    · refine (rest.done x).trans ⟨?_, fun h => h.imp_left fun early =>
        (first.done x).2 (.inl early)⟩
      rintro (early | written)
      · exact ((first.done x).1 early).imp_right fun written => rest.grows.subset written
      · exact .inr written

theorem visited_visit (closed : lib.Closed set) {r : ρ} (member : r ∈ set)
    (above : ∀ x ∈ opened, lib.rank r < lib.rank x) (h : lib.Pending opened s) :
    lib.Visited set [r] s (lib.visit s r) := by
  induction rank : lib.rank r using Nat.strongRecOn generalizing s r opened with
  | ind k ih =>
    rw [visit_eq]
    split
    case isTrue known =>
      have written := (h.rest r (contains_iff_mem.1 known)).resolve_right fun own =>
        lt_irrefl _ (above r own)
      exact h.visited (cons_subset.2 ⟨written, nofun⟩)
    case isFalse unknown =>
      have marking : lib.Pending (r :: opened) { s with done := r :: s.done } := by
        refine ⟨h.ordered, fun x written => .tail _ (h.marked written), ?_⟩
        refine forall_mem_cons.2 ⟨.inr (.head _), fun x mark => ?_⟩
        exact (h.rest x mark).imp_right (mem_cons_of_mem _)
      have callees : lib.Visited set (lib.calls r) _ _ := visited_foldl marking fun d call s h => by
        have falls := lib.falls r d call
        refine ih (lib.rank d) (rank ▸ falls) (closed r member d call) ?_ h rfl
        exact forall_mem_cons.2 ⟨falls, fun x own => falls.trans (above x own)⟩
      have new : r ∉ ((lib.calls r).foldl lib.visit { s with done := r :: s.done }).order :=
        fun there => by
        rcases callees.added r there with early | ⟨-, new⟩
        · exact unknown (contains_iff_mem.2 (h.marked early))
        · exact new (.head _)
      refine ⟨callees.ordered.snoc new callees.there, callees.grows.trans (prefix_append _ _),
        cons_subset.2 ⟨mem_append_right _ (.head _), nofun⟩, fun x there => ?_, fun x => ?_⟩
      · rcases mem_append.1 there with there | last
        · exact (callees.added x there).imp_right (And.imp_right fun new mark => new (.tail _ mark))
        · rw [mem_singleton.1 last]
          exact .inr ⟨member, fun mark => unknown (contains_iff_mem.2 mark)⟩
      · rw [callees.done, mem_cons, mem_append, mem_singleton, or_comm (a := x = r), or_assoc,
          or_comm (a := x = r)]

theorem visited_order (closed : lib.Closed set) (within : rs ⊆ set) :
    lib.Ordered (lib.order rs) ∧ rs ⊆ lib.order rs ∧ lib.order rs ⊆ set := by
  have start : lib.Pending [] ⟨[], []⟩ := ⟨.nil lib, fun _ => id, fun _ => .inl⟩
  have visited : lib.Visited set rs ⟨[], []⟩ (rs.foldl lib.visit ⟨[], []⟩) :=
    visited_foldl start fun r member _ h =>
      visited_visit closed (within member) (fun _ none => absurd none not_mem_nil) h
  exact ⟨visited.ordered, visited.there, fun r there =>
    ((visited.added r there).resolve_left not_mem_nil).1⟩

/-- an order of a set: it is closed under calls, and its routines are in order -/
def Resolves (lib : Library ρ) (set order : List ρ) : Prop :=
  lib.Closed set ∧ lib.Ordered order ∧ ∀ r, r ∈ order ↔ r ∈ set

theorem resolves_order {asked : List ρ} (same : ∀ r, r ∈ set ↔ r ∈ asked.foldl lib.require [])
    (listed : ∀ r, r ∈ rs ↔ r ∈ set) : lib.Resolves set (lib.order rs) := by
  have closed : lib.Closed set := fun r member d call =>
    (same d).2 (lib.closed_required asked r ((same r).1 member) d call)
  obtain ⟨ordered, there, only⟩ := visited_order closed fun r member => (listed r).1 member
  exact ⟨closed, ordered, fun r => ⟨fun h => only h, fun h => there ((listed r).2 h)⟩⟩

/-- calls without loops have a rank: the number of routines that are called in the end -/
theorem exists_of_acyclic {ρ : Type} [Finite ρ] {calls : ρ → List ρ}
    (acyclic : ∀ r, ¬ Relation.TransGen (fun d r => d ∈ calls r) r r) :
    ∃ lib : Library ρ, lib.calls = calls := by
  refine ⟨⟨calls, fun r => Set.ncard {d | Relation.TransGen (fun d r => d ∈ calls r) d r},
    fun r d call => ?_⟩, rfl⟩
  exact Set.ncard_lt_ncard ⟨fun x below => below.tail call,
    fun all => acyclic d (all (.single call))⟩

end Library

namespace Routine

variable {rs : List Routine}

theorem mem_sorted {r : Routine} : r ∈ sorted rs ↔ r ∈ rs := (List.mergeSort_perm _ _).mem_iff

theorem visited_all (rs : List Routine) : kernelLibrary.Ordered (writingOrder rs) ∧
    sorted rs ⊆ writingOrder rs ∧ writingOrder rs ⊆ all :=
  Library.visited_order (fun _ _ d _ => d.mem_all) fun r _ => r.mem_all

theorem writingOrder_ordered (rs : List Routine) : kernelLibrary.Ordered (writingOrder rs) :=
  (visited_all rs).1

theorem mem_writingOrder {r : Routine} (h : r ∈ rs) : r ∈ writingOrder rs :=
  (visited_all rs).2.1 (mem_sorted.2 h)

end Routine

/-- **Required routines are closed and in order.**  The routines that were required, given in
whatever order, bring what they call, and each of them is written once, behind the ones it calls.
This goes for every table of calls without loops. -/
theorem resolves_required :
    (∀ asked rs : List Routine, (∀ r, r ∈ rs ↔ r ∈ asked.foldl kernelLibrary.require []) →
      kernelLibrary.Resolves rs (Routine.writingOrder rs)) ∧
    ∀ {ρ : Type} [DecidableEq ρ] [Finite ρ] (calls : ρ → List ρ),
      (∀ r, ¬ Relation.TransGen (fun d r => d ∈ calls r) r r) →
      ∃ lib : Library ρ, lib.calls = calls ∧ ∀ asked rs : List ρ,
        (∀ r, r ∈ rs ↔ r ∈ asked.foldl lib.require []) → lib.Resolves rs (lib.order rs) := by
  refine ⟨fun asked rs same => Library.resolves_order same fun r => Routine.mem_sorted, ?_⟩
  intro ρ _ _ calls acyclic
  obtain ⟨lib, rfl⟩ := Library.exists_of_acyclic acyclic
  exact ⟨lib, rfl, fun asked rs same => Library.resolves_order same fun r => .rfl⟩

/-- gradient noise, given in the order of its calls -/
theorem resolves_required_noise :
    kernelLibrary.Resolves [.hashU32, .hash2, .grad2, .perlin2]
      (Routine.writingOrder [.hashU32, .hash2, .grad2, .perlin2]) := by
  have required : [Routine.perlin2].foldl kernelLibrary.require [] =
      [.perlin2, .grad2, .hash2, .hashU32] := by
    simp [Library.require_eq, kernelLibrary, Routine.calls]
  refine resolves_required.1 [.perlin2] _ fun r => ?_
  rw [required]
  cases r <;> decide

end Terrain.Kernel
