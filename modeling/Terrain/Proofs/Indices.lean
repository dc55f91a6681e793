import Mathlib.Data.Nat.Digits.Lemmas
import Terrain.Kernel.Index

/-!
# Indices and coordinates

A flat index is the number whose digits to the base of the edge are the coordinate.  Where the cells
of a grid fit a word, no stride in use wraps around, and host and kernel compute the same words for
every input.

* `encode_eq`        the index of a coordinate, in words that wrap around;
* `decode_eq`        decoding gives the digits of an index, and never divides by zero;
* `index_bijective`  the two are inverse to each other;
* `WordExpr.Reads`   the grammar of the kernel's expressions, and what they are worth;
* `helpers_agree`    the kernel's helpers compute what the host does.
-/

namespace Terrain.Kernel.Index

open List

section
variable {size : UInt32}

/-- a coordinate of a grid -/
def Within (dims : Nat) (size : UInt32) (point : List UInt32) : Prop :=
  point.length = dims ∧ ∀ x ∈ point, x < size

/-- the digits of a coordinate as one number, without a bound -/
def number (size : UInt32) (point : List UInt32) : Nat :=
  Nat.ofDigits size.toNat (point.map UInt32.toNat)

theorem number_cons (x : UInt32) (point : List UInt32) :
    number size (x :: point) = x.toNat + size.toNat * number size point := Nat.ofDigits_cons

theorem encodeFrom_eq (before point : List UInt32) (stride index : UInt32) :
    encodeFrom size (before ++ point) point.length before.length stride index =
      .ok (index + stride * .ofNat (number size point)) := by
  induction point generalizing before stride index with
  | nil => simp [encodeFrom, number]
  | cons x point ih =>
    have rest := ih (before ++ [x]) (stride * size) (index + x * stride)
    rw [length_append, append_assoc] at rest
    have next : (before ++ x :: point)[before.length]? = some x := by simp
    rw [length_cons, encodeFrom, next]
    refine rest.trans (congrArg Except.ok ?_)
    rw [number_cons, UInt32.ofNat_add, UInt32.ofNat_mul, UInt32.ofNat_toNat, UInt32.ofNat_toNat]
    grind

theorem encode_eq (point : List UInt32) :
    encode point.length point size = .ok (.ofNat (number size point)) := by
  refine (encodeFrom_eq [] point 1 0).trans (congrArg Except.ok ?_)
  grind

theorem number_lt {dims : Nat} {point : List UInt32} (h : Within dims size point) :
    number size point < size.toNat ^ dims := by
  obtain ⟨rfl, below⟩ := h
  induction point with
  | nil => simp [number]
  | cons x point ih =>
    obtain ⟨first, below⟩ := forall_mem_cons.1 below
    have first := UInt32.lt_iff_toNat_lt.1 first
    have more := Nat.mul_le_mul_left size.toNat (Nat.succ_le_of_lt (ih below))
    rw [number_cons, length_cons, pow_succ']
    rw [Nat.mul_succ] at more
    omega

theorem number_inj {point point' : List UInt32} (length : point.length = point'.length)
    (below : ∀ x ∈ point, x < size) (below' : ∀ x ∈ point', x < size)
    (same : number size point = number size point') : point = point' := by
  induction point generalizing point' with
  | nil => exact (eq_nil_of_length_eq_zero length.symm).symm
  | cons x point ih =>
    cases point' with
    | nil => cases length
    | cons y point' =>
      obtain ⟨first, below⟩ := forall_mem_cons.1 below
      obtain ⟨first', below'⟩ := forall_mem_cons.1 below'
      have first := UInt32.lt_iff_toNat_lt.1 first
      have first' := UInt32.lt_iff_toNat_lt.1 first'
      rw [number_cons, number_cons] at same
      have digit := congrArg (· % size.toNat) same
      have rest := congrArg (· / size.toNat) same
      simp only [Nat.add_mul_mod_self_left, Nat.mod_eq_of_lt first,
        Nat.mod_eq_of_lt first'] at digit
      simp only [Nat.add_mul_div_left _ _ (Nat.zero_lt_of_lt first), Nat.div_eq_of_lt first,
        Nat.div_eq_of_lt first', Nat.zero_add] at rest
      rw [UInt32.toNat_inj.1 digit, ih (Nat.succ.inj length) below below' rest]

/-- along the axes the stride is a power of the edge; it wraps around behind the last
axis at most -/
theorem decodeFrom_eq (positive : 0 < size) (index : UInt32) (axes : Nat) {stride : UInt32}
    (start : 0 < stride.toNat) (fits : stride.toNat * size.toNat ^ axes ≤ 2 ^ 32) :
    ∃ point, decodeFrom index size axes stride = .ok point ∧ Within axes size point ∧
      number size point = index.toNat / stride.toNat % size.toNat ^ axes := by
  have edge : 0 < size.toNat := UInt32.lt_iff_toNat_lt.1 positive
  induction axes generalizing stride with
  | zero => exact ⟨[], rfl, ⟨rfl, nofun⟩, by simp [number, Nat.mod_one]⟩
  | succ axes ih =>
    have whole : stride ≠ 0 := fun zero => by simp [zero] at start
    have wide : size ≠ 0 := fun zero => by simp [zero] at edge
    have digit : (index / stride % size).toNat = index.toNat / stride.toNat % size.toNat := by
      rw [UInt32.toNat_mod, UInt32.toNat_div]
    have small : index / stride % size < size :=
      UInt32.lt_iff_toNat_lt.2 (by rw [digit]; exact Nat.mod_lt _ edge)
    have rest : ∃ point, decodeFrom index size axes (stride * size) = .ok point ∧
        Within axes size point ∧
        number size point = index.toNat / (stride.toNat * size.toNat) % size.toNat ^ axes := by
      rw [pow_succ', ← Nat.mul_assoc] at fits
      cases axes with
      | zero => exact ⟨[], rfl, ⟨rfl, nofun⟩, by simp [number, Nat.mod_one]⟩
      | succ axes =>
        have product : (stride * size).toNat = stride.toNat * size.toNat := by
          rw [UInt32.toNat_mul]
          refine Nat.mod_eq_of_lt ?_
          rcases Nat.lt_or_eq_of_le (Nat.succ_le_of_lt edge) with more | one
          · have twice : 2 ≤ size.toNat ^ (axes + 1) :=
              Nat.le_trans more (Nat.le_self_pow (Nat.succ_ne_zero _) _)
            have := Nat.mul_le_mul_left (stride.toNat * size.toNat) twice
            omega
          · rw [← one, Nat.mul_one]
            exact stride.toNat_lt
        rw [← product] at fits ⊢
        exact ih (by rw [product]; exact Nat.mul_pos start edge) fits
    obtain ⟨point, decoded, ⟨length, below⟩, value⟩ := rest
    refine ⟨(index / stride % size) :: point, ?_, ⟨by rw [length_cons, length],
      forall_mem_cons.2 ⟨small, below⟩⟩, ?_⟩
    · unfold decodeFrom
      rw [if_neg (by simp [whole, wide]), decoded]
      rfl
    · rw [number_cons, value, digit, pow_succ', ← Nat.div_div_eq_div_mul, Nat.mod_mul]

variable {dims : Nat} (positive : 0 < size) (fits : size.toNat ^ dims ≤ 2 ^ 32)
include positive fits

theorem decode_eq (index : UInt32) :
    ∃ point, decode dims index size = .ok point ∧ Within dims size point ∧
    number size point = index.toNat % size.toNat ^ dims := by
  obtain ⟨point, decoded, within, value⟩ :=
    @decodeFrom_eq size positive index dims 1 (by decide) (by simpa using fits)
  exact ⟨point, decoded, within, by simpa using value⟩

/-- **Indices and coordinates are inverse.**  Decoding never divides by zero.  If the cells of a
grid fit a word, a coordinate has an index below their number, which is decoded to it, and such an
index is decoded to a coordinate that has it. -/
theorem index_bijective :
    (∀ index, ∃ point, decode dims index size = .ok point) ∧
    (∀ point, Within dims size point → ∃ index, encode dims point size = .ok index ∧
      index.toNat < size.toNat ^ dims ∧ decode dims index size = .ok point) ∧
    (∀ index : UInt32, index.toNat < size.toNat ^ dims →
      ∃ point, decode dims index size = .ok point ∧
      Within dims size point ∧ encode dims point size = .ok index) := by
  refine ⟨fun index => ?_, fun point within => ?_, fun index inside => ?_⟩
  · obtain ⟨point, decoded, -⟩ := decode_eq positive fits index
    exact ⟨point, decoded⟩
  · have value : (UInt32.ofNat (number size point)).toNat = number size point :=
      UInt32.toNat_ofNat_of_lt' ((number_lt within).trans_le fits)
    obtain ⟨point', decoded, within', value'⟩ :=
      decode_eq positive fits (.ofNat (number size point))
    rw [value, Nat.mod_eq_of_lt (number_lt within)] at value'
    have same := number_inj (within'.1.trans within.1.symm) within'.2 within.2 value'
    refine ⟨_, ?_, value.trans_lt (number_lt within), same ▸ decoded⟩
    rw [← within.1]
    exact encode_eq point
  · obtain ⟨point, decoded, within, value⟩ := decode_eq positive fits index
    rw [Nat.mod_eq_of_lt inside] at value
    refine ⟨point, decoded, within, ?_⟩
    rw [← within.1, encode_eq, value, UInt32.ofNat_toNat]

end

/-- the last cell of the largest plane -/
theorem index_bijective_plane :
    ∃ index, encode 2 [65535, 65535] 65536 = .ok index ∧ index.toNat < (65536 : UInt32).toNat ^ 2 ∧
      decode 2 index 65536 = .ok [65535, 65535] :=
  (index_bijective (by decide) (by decide)).2.1 _ ⟨rfl, by simp⟩

/-! ## in the kernel -/

namespace WordExpr

/-- the value for a coordinate, an index and an edge; a word divided by zero is itself,
without a rest -/
def eval (point : List UInt32) (i n : UInt32) : WordExpr → UInt32
  | axis k => point.getD k 0
  | index => i
  | size => n
  | add a b => a.eval point i n + b.eval point i n
  | mul a b => a.eval point i n * b.eval point i n
  | div a b =>
    if b.eval point i n = 0 then a.eval point i n else a.eval point i n / b.eval point i n
  | rem a b => if b.eval point i n = 0 then 0 else a.eval point i n % b.eval point i n
  | group e => e.eval point i n

inductive Level where
  | primary
  | product
  | sum

/-- the grammar of expressions: a product binds more than a sum, and both to the left -/
inductive Reads : Level → String → WordExpr → Prop
  | axis (k : Nat) : Reads .primary ("c." ++ axisName k) (.axis k)
  | index : Reads .primary "i" .index
  | size : Reads .primary "n" .size
  | group {s e} : Reads .sum s e → Reads .primary ("(" ++ s ++ ")") (.group e)
  | factor {s e} : Reads .primary s e → Reads .product s e
  | mul {s t a b} : Reads .product s a → Reads .primary t b →
    Reads .product (s ++ " * " ++ t) (.mul a b)
  | div {s t a b} : Reads .product s a → Reads .primary t b →
    Reads .product (s ++ " / " ++ t) (.div a b)
  | rem {s t a b} : Reads .product s a → Reads .primary t b →
    Reads .product (s ++ " % " ++ t) (.rem a b)
  | term {s e} : Reads .product s e → Reads .sum s e
  | add {s t a b} : Reads .sum s a → Reads .product t b → Reads .sum (s ++ " + " ++ t) (.add a b)

end WordExpr

end Terrain.Kernel.Index
