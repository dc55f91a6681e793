import Mathlib.Algebra.Order.Group.Int
import Terrain.Number.Single

/-!
# Patterns of a format

A pattern stands for a significand times a power of two, and the nearest pattern of such a number is
the pattern it came from, so long as it is no NaN.

* `scaled_exact`      scaling there and back, as exact ratios;
* `ratioLog2_scaled`  the leading digit of a significand times a power of two;
* `pack_unpack`       a pattern that is no NaN is packed from what it stands for;
* `pack_lt`           packing stays inside the format.
-/

namespace Terrain.Number

variable {bits m : Nat}

/-! ## exact ratios -/

theorem divRound_mul (m : Nat) {d : Nat} (pos : 0 < d) : divRound (m * d) d = m := by
  unfold divRound
  rw [Nat.mul_div_cancel m pos, Nat.mul_mod_left]
  have exact : ¬ (d < 2 * 0 ∨ 2 * 0 = d ∧ m % 2 = 1) := by omega
  rw [if_neg exact]

theorem scaled_nat (n d k : Nat) : scaled n d k = (n * 2 ^ k, d) := rfl

theorem scaled_neg (n d k : Nat) : scaled n d (-(k : Int)) = (n, d * 2 ^ k) := by
  cases k with
  | zero => rw [Nat.pow_zero, Nat.mul_one]; exact congrArg (·, d) (Nat.mul_one n)
  | succ k => rfl

theorem scale_cases (s : Int) : ∃ k : Nat, s = k ∨ s = -(k : Int) := ⟨s.natAbs, s.natAbs_eq⟩

theorem scaled_exact (m : Nat) (s : Int) :
    ∃ d, 0 < d ∧ scaled (scaled m 1 s).1 (scaled m 1 s).2 (-s) = (m * d, d) := by
  obtain ⟨k, rfl | rfl⟩ := scale_cases s <;> refine ⟨2 ^ k, Nat.two_pow_pos k, ?_⟩
  · rw [scaled_nat, scaled_neg, Nat.one_mul]
  · rw [scaled_neg, Int.neg_neg, scaled_nat, Nat.one_mul]

theorem log2_mul_two_pow (pos : m ≠ 0) (k : Nat) : (m * 2 ^ k).log2 = m.log2 + k := by
  obtain ⟨low, high⟩ := (Nat.log2_eq_iff pos).1 rfl
  refine (Nat.log2_eq_iff (Nat.mul_ne_zero pos (Nat.two_pow_pos k).ne')).2 ⟨?_, ?_⟩
  · rw [Nat.pow_add]
    exact Nat.mul_le_mul_right _ low
  · rw [Nat.add_right_comm, Nat.pow_add]
    exact Nat.mul_lt_mul_of_pos_right high (Nat.two_pow_pos k)

theorem ratioLog2_eq {n d : Nat} {e : Int} (digits : (n.log2 : Int) - d.log2 = e)
    (le : (scaled n d (-e)).2 ≤ (scaled n d (-e)).1) : ratioLog2 n d = e := by
  subst digits
  exact if_neg (not_lt.2 le)

theorem ratioLog2_scaled (pos : m ≠ 0) (s : Int) :
    ratioLog2 (scaled m 1 s).1 (scaled m 1 s).2 = m.log2 + s := by
  have low := Nat.log2_self_le pos
  obtain ⟨k, rfl | rfl⟩ := scale_cases s
  · rw [scaled_nat]
    refine ratioLog2_eq ?_ ?_
    · rw [log2_mul_two_pow pos]
      exact Int.sub_zero _
    · rw [← Int.natCast_add, scaled_neg, Nat.one_mul, Nat.pow_add]
      exact Nat.mul_le_mul_right _ low
  · rw [scaled_neg, Nat.one_mul]
    refine ratioLog2_eq ?_ ?_
    · rw [Nat.log2_two_pow]
      rfl
    · rcases Nat.le_total m.log2 k with small | large
      · have down : -((m.log2 : Int) + -(k : Int)) = ((k - m.log2 : Nat) : Int) := by omega
        have whole : 2 ^ k = 2 ^ m.log2 * 2 ^ (k - m.log2) := by
          rw [← Nat.pow_add, Nat.add_sub_cancel' small]
        rw [down, scaled_nat]
        show 2 ^ k ≤ m * 2 ^ (k - m.log2)
        rw [whole]
        exact Nat.mul_le_mul_right _ low
      · have up : (m.log2 : Int) + -(k : Int) = ((m.log2 - k : Nat) : Int) := by omega
        rw [up, scaled_neg, ← Nat.pow_add, Nat.add_sub_cancel' large]
        exact low

/-! ## formats -/

namespace Format

variable {f : Format} {negative : Bool} {m : Nat} {s : Int}

/-- a significand and a scale that the format holds -/
structure Holds (f : Format) (m : Nat) (s : Int) : Prop where
  short : m < 2 ^ (f.fractionBits + 1)
  least : f.leastScale ≤ s
  /-- smaller significands only stand next to zero -/
  full : f.leastScale < s → 2 ^ f.fractionBits ≤ m
  range : (s - f.leastScale).toNat * 2 ^ f.fractionBits + m < f.topField * 2 ^ f.fractionBits

theorem pack_finite (h : f.Holds m s) :
    f.pack (.finite negative m s) =
      f.signBit negative + ((s - f.leastScale).toNat * 2 ^ f.fractionBits + m) := by
  show f.ofRatio negative (scaled m 1 s).1 (scaled m 1 s).2 = _
  by_cases zero : m = 0
  · subst zero
    have least : (s - f.leastScale).toNat = 0 := by
      by_contra above
      have := h.full (by omega)
      have := Nat.two_pow_pos f.fractionBits
      omega
    have none : (scaled 0 1 s).1 = 0 := by
      obtain ⟨k, rfl | rfl⟩ := scale_cases s
      · exact Nat.zero_mul _
      · rw [scaled_neg]
    rw [ofRatio, if_pos none, least, Nat.zero_mul, Nat.add_zero]
  · have some : (scaled m 1 s).1 ≠ 0 := by
      obtain ⟨k, rfl | rfl⟩ := scale_cases s
      · exact Nat.mul_ne_zero zero (Nat.two_pow_pos k).ne'
      · rwa [scaled_neg]
    have short : m.log2 ≤ f.fractionBits := Nat.lt_succ_iff.1 ((Nat.log2_lt zero).2 h.short)
    -- the scale is the one that the number came with
    have scale : max (ratioLog2 (scaled m 1 s).1 (scaled m 1 s).2 - f.fractionBits)
        f.leastScale = s := by
      rw [ratioLog2_scaled zero]
      rcases h.least.lt_or_eq with above | least
      · have full : m.log2 = f.fractionBits :=
          le_antisymm short ((Nat.le_log2 zero).2 (h.full above))
        have := h.least
        omega
      · omega
    obtain ⟨d, pos, exact⟩ := scaled_exact m s
    unfold ofRatio
    rw [if_neg some]
    simp only [scale, exact, divRound_mul m pos]
    rw [if_neg (not_le.2 h.range)]

theorem pattern_eq (small : bits < 2 ^ (f.fractionBits + f.exponentBits + 1)) :
    f.signBit (bits / 2 ^ (f.fractionBits + f.exponentBits) % 2 == 1) +
      (bits / 2 ^ f.fractionBits % 2 ^ f.exponentBits * 2 ^ f.fractionBits +
        bits % 2 ^ f.fractionBits) = bits := by
  have sign : bits / 2 ^ (f.fractionBits + f.exponentBits) < 2 := by
    rw [Nat.div_lt_iff_lt_mul (Nat.two_pow_pos _), Nat.mul_comm, ← Nat.pow_succ]
    exact small
  have low := Nat.div_add_mod' bits (2 ^ f.fractionBits)
  have high := Nat.div_add_mod' (bits / 2 ^ f.fractionBits) (2 ^ f.exponentBits)
  rw [Nat.div_div_eq_div_mul, ← Nat.pow_add] at high
  have top : f.signBit (bits / 2 ^ (f.fractionBits + f.exponentBits) % 2 == 1) =
      bits / 2 ^ (f.fractionBits + f.exponentBits) * 2 ^ f.exponentBits * 2 ^ f.fractionBits := by
    rw [Nat.mod_eq_of_lt sign, Nat.mul_assoc, ← Nat.pow_add, Nat.add_comm f.exponentBits]
    unfold signBit
    rcases Nat.le_one_iff_eq_zero_or_eq_one.1 (Nat.lt_succ_iff.1 sign) with zero | one
    · rw [zero, Nat.zero_mul]
      rfl
    · rw [one, Nat.one_mul]
      rfl
  rw [top, ← Nat.add_assoc, ← Nat.add_mul, high, low]

theorem unpack_finite (h : f.unpack bits = .finite negative m s) :
    f.Holds m s ∧ negative = (bits / 2 ^ (f.fractionBits + f.exponentBits) % 2 == 1) ∧
      (s - f.leastScale).toNat * 2 ^ f.fractionBits + m =
        bits / 2 ^ f.fractionBits % 2 ^ f.exponentBits * 2 ^ f.fractionBits +
          bits % 2 ^ f.fractionBits := by
  have fraction_lt : bits % 2 ^ f.fractionBits < 2 ^ f.fractionBits :=
    Nat.mod_lt _ (Nat.two_pow_pos _)
  have field_lt : bits / 2 ^ f.fractionBits % 2 ^ f.exponentBits < 2 ^ f.exponentBits :=
    Nat.mod_lt _ (Nat.two_pow_pos _)
  have double : 2 ^ (f.fractionBits + 1) = 2 * 2 ^ f.fractionBits := Nat.pow_succ'
  unfold unpack at h
  dsimp only at h
  generalize bits % 2 ^ f.fractionBits = fraction at *
  generalize bits / 2 ^ f.fractionBits % 2 ^ f.exponentBits = field at *
  split at h
  · split at h <;> cases h
  · next proper =>
    have below : field + 1 ≤ f.topField := by
      unfold topField at proper ⊢
      omega
    have range : field * 2 ^ f.fractionBits + fraction < f.topField * 2 ^ f.fractionBits :=
      calc field * 2 ^ f.fractionBits + fraction
          < (field + 1) * 2 ^ f.fractionBits := by rw [Nat.succ_mul]; omega
        _ ≤ f.topField * 2 ^ f.fractionBits := Nat.mul_le_mul_right _ below
    split at h
    · next zero =>
      cases h
      subst zero
      have least : (f.leastScale - f.leastScale).toNat = 0 := by omega
      refine ⟨⟨by omega, le_rfl, fun above => absurd above (lt_irrefl _), ?_⟩, rfl, ?_⟩ <;>
        rw [least]
      exact range
    · next normal =>
      cases h
      have scale : (f.leastScale + ((field - 1 : Nat) : Int) - f.leastScale).toNat =
          field - 1 := by omega
      have whole : (field - 1) * 2 ^ f.fractionBits + (2 ^ f.fractionBits + fraction) =
          field * 2 ^ f.fractionBits + fraction := by
        rw [← Nat.add_assoc, ← Nat.succ_mul, Nat.succ_eq_add_one, Nat.sub_add_cancel (by omega)]
      refine ⟨⟨by omega, by omega, fun _ => Nat.le_add_right _ _, ?_⟩, rfl, ?_⟩ <;>
        rw [scale, whole]
      exact range

theorem unpack_infinite (h : f.unpack bits = .infinite negative) :
    negative = (bits / 2 ^ (f.fractionBits + f.exponentBits) % 2 == 1) ∧
      bits / 2 ^ f.fractionBits % 2 ^ f.exponentBits = f.topField ∧
        bits % 2 ^ f.fractionBits = 0 := by
  unfold unpack at h
  dsimp only at h
  split at h
  · next top =>
    split at h
    · next zero =>
      cases h
      exact ⟨rfl, top, zero⟩
    · cases h
  · split at h <;> cases h

theorem pack_unpack (small : bits < 2 ^ (f.fractionBits + f.exponentBits + 1))
    (number : f.unpack bits ≠ .nan) : f.pack (f.unpack bits) = bits := by
  cases unpacked : f.unpack bits with
  | finite negative m s =>
    obtain ⟨holds, sign, magnitude⟩ := unpack_finite unpacked
    rw [pack_finite holds, magnitude, sign]
    exact pattern_eq small
  | infinite negative =>
    obtain ⟨sign, field, fraction⟩ := unpack_infinite unpacked
    have pattern := pattern_eq small
    rw [field, fraction, ← sign] at pattern
    exact pattern
  | nan => exact absurd unpacked number

theorem signBit_add_lt {magnitude : Nat} (negative : Bool)
    (h : magnitude < 2 ^ (f.fractionBits + f.exponentBits)) :
    f.signBit negative + magnitude < 2 ^ (f.fractionBits + f.exponentBits + 1) := by
  have sign : f.signBit negative ≤ 2 ^ (f.fractionBits + f.exponentBits) := by
    unfold signBit
    split
    · exact le_rfl
    · exact Nat.zero_le _
  rw [Nat.pow_succ]
  omega

theorem pack_lt (room : 0 < f.fractionBits) (d : Datum) :
    f.pack d < 2 ^ (f.fractionBits + f.exponentBits + 1) := by
  have top : f.topField * 2 ^ f.fractionBits + 2 ^ f.fractionBits =
      2 ^ (f.fractionBits + f.exponentBits) := by
    unfold topField
    rw [← Nat.succ_mul, Nat.succ_eq_add_one, Nat.sub_add_cancel (Nat.two_pow_pos _), Nat.add_comm,
      Nat.pow_add]
  have some : 0 < 2 ^ f.fractionBits := Nat.two_pow_pos _
  have infinity (negative : Bool) :
      f.infinity negative < 2 ^ (f.fractionBits + f.exponentBits + 1) :=
    signBit_add_lt negative (by omega)
  cases d with
  | finite negative m s =>
    show f.ofRatio negative (scaled m 1 s).1 (scaled m 1 s).2 < _
    unfold ofRatio
    split
    · exact signBit_add_lt negative (Nat.two_pow_pos _)
    · dsimp only
      split
      · exact infinity negative
      · exact signBit_add_lt negative (by omega)
  | infinite negative => exact infinity negative
  | nan =>
    have half : 2 ^ (f.fractionBits - 1) < 2 ^ f.fractionBits :=
      Nat.pow_lt_pow_right (by decide) (Nat.sub_lt room Nat.one_pos)
    show f.topField * 2 ^ f.fractionBits + 2 ^ (f.fractionBits - 1) < _
    rw [Nat.pow_succ]
    omega

end Format

/-! ## singles -/

theorem overflowsSingle_finite {negative : Bool} {s : Int} (short : m < 2 ^ 24) (low : s ≤ 104) :
    (Datum.finite negative m s).overflowsSingle = false := by
  show decide ((2 ^ 24 - 1) * 2 ^ 104 * (scaled m 1 s).2 < (scaled m 1 s).1) = false
  refine decide_eq_false (not_lt.2 ?_)
  obtain ⟨k, rfl | rfl⟩ := scale_cases s
  · rw [scaled_nat, Nat.mul_one]
    exact Nat.mul_le_mul (by omega) (Nat.pow_le_pow_right (by decide) (by omega))
  · rw [scaled_neg, Nat.one_mul]
    calc m ≤ (2 ^ 24 - 1) * 2 ^ 104 := by omega
      _ ≤ (2 ^ 24 - 1) * 2 ^ 104 * 2 ^ k := Nat.le_mul_of_pos_right _ (Nat.two_pow_pos k)

theorem Format.Holds.scale_lt {f : Format} {s : Int} (h : f.Holds m s) (above : f.leastScale < s) :
    s + 1 < f.leastScale + f.topField := by
  have range : ((s - f.leastScale).toNat + 1) * 2 ^ f.fractionBits <
      f.topField * 2 ^ f.fractionBits := by
    have := h.full above
    have := h.range
    rw [Nat.succ_mul]
    omega
  have := Nat.lt_of_mul_lt_mul_right range
  omega

theorem overflowsSingle_unpack {f : Format} (digits : f.fractionBits + 1 ≤ 24)
    (least : f.leastScale ≤ 104) (top : f.leastScale + f.topField ≤ 106) (bits : Nat) :
    (f.unpack bits).overflowsSingle = false := by
  cases unpacked : f.unpack bits with
  | finite negative m s =>
    obtain ⟨holds, -⟩ := f.unpack_finite unpacked
    refine overflowsSingle_finite ?_ ?_
    · exact holds.short.trans_le (Nat.pow_le_pow_right (by decide) digits)
    · rcases holds.least.lt_or_eq with above | eq
      · have := holds.scale_lt above
        omega
      · omega
  | infinite _ => rfl
  | nan => rfl

end Terrain.Number
