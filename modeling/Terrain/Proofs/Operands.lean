import Terrain.Proofs.Accepts
import Terrain.Proofs.Decode

/-!
# Operands of typed nodes

A node that is typed pins the shapes of its operands, but for those whose shapes the text of a
symbol tells anyway.  So a node is known, up to what reaches the code, from its bytes and from the
looks of its operands.

* `shapes_eq_of_solid`     they are told by how they look;
* `bare_eq`                nodes of one operation over operands that look alike generate one code.
-/

namespace Terrain

open Compile List

theorem shapes_eq_of_solid {op : Op} {S T : List Shape} {σ τ : Shape} (hS : op.typingOf S = .ok σ)
    (hT : op.typingOf T = .ok τ) (takesS : op.Takes S.length) (takesT : op.Takes T.length)
    (solid : S.map Shape.solid = T.map Shape.solid) : S = T := by
  by_cases cast : ∃ target, op = .cast target
  · obtain ⟨target, rfl⟩ := cast
    obtain ⟨s, rfl⟩ := length_eq_one_iff.1 takesS
    obtain ⟨t, rfl⟩ := length_eq_one_iff.1 takesT
    have fitsS := (typed_of_check hS).1
    have fitsT := (typed_of_check hT).1
    have same : s.solid = t.solid := by simpa using solid
    -- a scalar is told by its look, and what is no scalar is the target itself
    cases s <;> cases t <;> simp_all [Shape.solid, Shape.isScalar]
  · have strict : ∀ target, op ≠ .cast target := fun target e => cast ⟨target, e⟩
    have id (l : List Shape) (defined : ∀ s ∈ l, s.isDefined = true) : l.map Shape.solid = l := by
      rw [map_congr_left fun s member => Shape.solid_of_isDefined (defined s member), map_id']
    rw [← id S (typingOf_defined hS takesS strict), solid, id T (typingOf_defined hT takesT strict)]

/-! ## nodes of one form -/

section
variable {n m : Node}

theorem takes_strip (op : Op) (k : Nat) : op.strip.Takes k ↔ op.Takes k := by
  cases op <;> exact Iff.rfl

theorem construct_of_strip {op : Op} (h : op.strip = .construct) : op = .construct := by
  cases op <;> first | rfl | cases h

/-- nodes of one operation take equally many operands, a construction by the byte it has on top -/
theorem arity_eq (op : n.op.strip = m.op.strip) (top : n.topByte = m.topByte)
    (hn : n.op.Takes n.inputs.length) (hm : m.op.Takes m.inputs.length) :
    n.inputs.length = m.inputs.length := by
  by_cases construct : n.op = .construct
  · have construct' : m.op = .construct := construct_of_strip (by rw [← op, construct]; rfl)
    simp only [Node.topByte, construct, construct'] at top
    rw [construct] at hn
    rw [construct'] at hm
    rcases hn with hn | hn <;> rcases hm with hm | hm <;> rw [hn, hm] at top ⊢ <;> cases top
  · have unique (o : Op) (other : o ≠ .construct) {j k : Nat} (hj : o.Takes j) (hk : o.Takes k) :
        j = k := by
      cases o with
      | construct => exact absurd rfl other
      | _ => exact hj.trans hk.symm
    have hm' := (takes_strip m.op _).2 hm
    rw [← op] at hm'
    exact unique n.op.strip (fun h => construct (construct_of_strip h))
      ((takes_strip n.op _).2 hn) hm'

theorem bare_eq {ws vs : List Wire} (op : n.op.strip = m.op.strip) (hn : n.inputs = ws.map some)
    (hm : m.inputs = vs.map some) (typed : n.typing = .ok n.shape) (typed' : m.typing = .ok m.shape)
    (takes : n.op.Takes n.inputs.length) (takes' : m.op.Takes m.inputs.length)
    (solid : ws.map (fun w => w.shape.solid) = vs.map fun w => w.shape.solid) :
    n.bare = m.bare := by
  rw [typing_inputs hn, ← strip_typingOf] at typed
  rw [typing_inputs hm, ← strip_typingOf, ← op] at typed'
  rw [← takes_strip, hn, length_map, ← length_map (f := Wire.shape)] at takes
  rw [← takes_strip, ← op, hm, length_map, ← length_map (f := Wire.shape)] at takes'
  have shapes := shapes_eq_of_solid typed typed' takes takes' (by
    rw [map_map, map_map]
    exact solid)
  have inputs (us : List Wire) : (us.map some).map (·.map fun w : Wire => (⟨0, w.shape⟩ : Wire)) =
      (us.map Wire.shape).map fun s => some ⟨0, s⟩ := by
    simp [map_map, Function.comp_def]
  unfold Node.bare
  rw [op, hn, hm, inputs, inputs, shapes]

end

end Terrain
