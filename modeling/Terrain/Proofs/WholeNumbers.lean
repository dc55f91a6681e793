import Mathlib.Tactic.Ring
import Terrain.Proofs.Formats

/-!
# Whole numbers as singles

The single next to a whole number has twenty-four binary digits.  It is the number itself up to
`2 ^ 24` in magnitude, and the first number above that is rounded down to it.

* `unpack_holds`    what a format holds is unpacked as it is;
* `nearest`         the number of twenty-four digits next to a whole number, and `rounded` with its
                    sign;
* `datum_ofInt`     the single of a whole number stands for the number rounded;
* `rounded_of_le`, `rounded_of_eq`, `lt_rounded`   how far that is the number itself.
-/

namespace Terrain

namespace Number

/-! ## rounding -/

theorem div_le_divRound (n d : Nat) : n / d ≤ divRound n d := by
  unfold divRound
  dsimp only
  split <;> omega

theorem divRound_le (n d : Nat) : divRound n d ≤ n / d + 1 := by
  unfold divRound
  dsimp only
  split <;> omega

namespace Format

variable {f : Format} {m : Nat} {s : Int}

theorem signBit_eq (f : Format) (negative : Bool) :
    f.signBit negative = negative.toNat * 2 ^ f.exponentBits * 2 ^ f.fractionBits := by
  rw [mul_assoc, ← pow_add, add_comm f.exponentBits]
  cases negative
  · exact (zero_mul _).symm
  · exact (one_mul _).symm

theorem unpack_parts (negative : Bool) {field fraction : Nat} (low : fraction < 2 ^ f.fractionBits)
    (proper : field < f.topField) :
    f.unpack (f.signBit negative + (field * 2 ^ f.fractionBits + fraction)) =
      if field = 0 then .finite negative fraction f.leastScale
      else .finite negative (2 ^ f.fractionBits + fraction) (f.leastScale + (field - 1 : Nat)) := by
  have high : field < 2 ^ f.exponentBits := proper.trans_le (Nat.sub_le _ _)
  have whole : f.signBit negative + (field * 2 ^ f.fractionBits + fraction) =
      fraction + 2 ^ f.fractionBits * (field + 2 ^ f.exponentBits * negative.toNat) := by
    rw [signBit_eq]
    generalize 2 ^ f.fractionBits = low
    generalize 2 ^ f.exponentBits = high
    ring
  have fractionPart : (f.signBit negative + (field * 2 ^ f.fractionBits + fraction)) %
      2 ^ f.fractionBits = fraction := by
    rw [whole, Nat.add_mul_mod_self_left, Nat.mod_eq_of_lt low]
  have rest : (f.signBit negative + (field * 2 ^ f.fractionBits + fraction)) / 2 ^ f.fractionBits =
      field + 2 ^ f.exponentBits * negative.toNat := by
    rw [whole, Nat.add_mul_div_left _ _ (Nat.two_pow_pos _), Nat.div_eq_of_lt low, zero_add]
  have fieldPart : (f.signBit negative + (field * 2 ^ f.fractionBits + fraction)) /
      2 ^ f.fractionBits % 2 ^ f.exponentBits = field := by
    rw [rest, Nat.add_mul_mod_self_left, Nat.mod_eq_of_lt high]
  have sign : ((f.signBit negative + (field * 2 ^ f.fractionBits + fraction)) /
      2 ^ (f.fractionBits + f.exponentBits) % 2 == 1) = negative := by
    rw [pow_add, ← Nat.div_div_eq_div_mul, rest, Nat.add_mul_div_left _ _ (Nat.two_pow_pos _),
      Nat.div_eq_of_lt high, zero_add]
    cases negative <;> rfl
  unfold unpack
  dsimp only
  rw [fractionPart, fieldPart, sign, if_neg (proper.ne)]

theorem unpack_holds (h : f.Holds m s) (negative : Bool) :
    f.unpack (f.signBit negative + ((s - f.leastScale).toNat * 2 ^ f.fractionBits + m)) =
      .finite negative m s := by
  have least := h.least
  have double : 2 ^ (f.fractionBits + 1) = 2 ^ f.fractionBits + 2 ^ f.fractionBits := by
    rw [pow_succ, Nat.mul_two]
  by_cases full : 2 ^ f.fractionBits ≤ m
  · -- the leading one is carried into the field
    obtain ⟨fraction, rfl⟩ := Nat.exists_eq_add_of_le full
    have carried : (s - f.leastScale).toNat * 2 ^ f.fractionBits + (2 ^ f.fractionBits + fraction) =
        ((s - f.leastScale).toNat + 1) * 2 ^ f.fractionBits + fraction := by
      rw [Nat.succ_mul, add_assoc]
    have low : fraction < 2 ^ f.fractionBits := by
      have := h.short
      omega
    have proper : (s - f.leastScale).toNat + 1 < f.topField := by
      refine Nat.lt_of_mul_lt_mul_right (a := 2 ^ f.fractionBits) ?_
      have range := h.range
      rw [carried] at range
      omega
    have scale : f.leastScale + ((s - f.leastScale).toNat + 1 - 1 : Nat) = s := by omega
    rw [carried, unpack_parts negative low proper, if_neg (Nat.succ_ne_zero _), scale]
  · have scale : s = f.leastScale := by
      by_contra other
      exact full (h.full (by omega))
    subst scale
    have zero : (f.leastScale - f.leastScale).toNat = 0 := by omega
    have range := h.range
    rw [zero] at range ⊢
    have some : 0 < f.topField := by
      by_contra none
      have none : f.topField = 0 := by omega
      rw [none, zero_mul] at range
      omega
    rw [unpack_parts negative (Nat.lt_of_not_le full) some, if_pos rfl]

end Format

/-! ## the single next to a whole number -/

def nearest (n : Nat) : Nat := divRound n (2 ^ (n.log2 - 23)) * 2 ^ (n.log2 - 23)

theorem nearest_of_lt {n : Nat} (small : n < 2 ^ 24) : nearest n = n := by
  have short : n.log2 - 23 = 0 := by
    rcases Nat.eq_zero_or_pos n with rfl | pos
    · rfl
    · have := (Nat.log2_lt pos.ne').2 small
      omega
  rw [nearest, short, pow_zero, divRound_one, mul_one]

/-- a whole number is exactly what a number stands for -/
def Datum.Is (d : Datum) (n : Int) : Prop := d.isWhole = true ∧ d.truncate? = some n

instance (d : Datum) (n : Int) : Decidable (d.Is n) :=
  inferInstanceAs (Decidable (d.isWhole = true ∧ d.truncate? = some n))

theorem is_finite_nat (negative : Bool) (m k : Nat) :
    (Datum.finite negative m k).Is
      (if negative then -(m * 2 ^ k : Nat) else (m * 2 ^ k : Nat)) := by
  refine ⟨?_, ?_⟩
  · show (m * 2 ^ k % 1 == 0) = true
    rw [Nat.mod_one]
    rfl
  · show some (if negative then -((m * 2 ^ k / 1 : Nat) : Int) else (m * 2 ^ k / 1 : Nat)) = _
    rw [Nat.div_one]

theorem is_finite_neg (negative : Bool) (m k : Nat) :
    (Datum.finite negative (m * 2 ^ k) (-(k : Int))).Is (if negative then -(m : Int) else m) := by
  have pos := Nat.two_pow_pos k
  have ratio : scaled (m * 2 ^ k) 1 (-(k : Int)) = (m * 2 ^ k, 2 ^ k) := by
    rw [scaled_neg, one_mul]
  refine ⟨?_, ?_⟩
  · show ((scaled (m * 2 ^ k) 1 (-(k : Int))).1 % (scaled (m * 2 ^ k) 1 (-(k : Int))).2 == 0) = true
    rw [ratio, Nat.mul_mod_left]
    rfl
  · show some (if negative then
        -(((scaled (m * 2 ^ k) 1 (-(k : Int))).1 / (scaled (m * 2 ^ k) 1
          (-(k : Int))).2 : Nat) : Int)
      else ((scaled (m * 2 ^ k) 1 (-(k : Int))).1 / (scaled (m * 2 ^ k) 1 (-(k : Int))).2 : Nat)) =
        _
    rw [ratio, Nat.mul_div_cancel m pos]

theorem ratioLog2_one {n : Nat} (pos : n ≠ 0) : ratioLog2 n 1 = n.log2 := by
  have := ratioLog2_scaled pos 0
  rwa [show scaled n 1 0 = (n, 1) from congrArg (·, 1) (mul_one n), add_zero] at this

theorem holds_whole {m k : Nat} (full : 2 ^ 23 ≤ m) (short : m < 2 ^ 24) (small : k < 100) :
    Format.binary32.Holds m k := by
  refine ⟨short, ?_, fun _ => full, ?_⟩
  · show (-149 : Int) ≤ k
    omega
  · show ((k : Int) + 149).toNat * 2 ^ 23 + m < 255 * 2 ^ 23
    omega

section
variable {n : Nat} (pos : n ≠ 0) (negative : Bool)
include pos

theorem ofRatio_whole {s : Int} {m : Nat} (scale : (n.log2 : Int) - 23 = s)
    (rounded : divRound (scaled n 1 (-s)).1 (scaled n 1 (-s)).2 = m) (least : -149 ≤ s)
    (range : (s + 149).toNat * 2 ^ 23 + m < 255 * 2 ^ 23) :
    Format.binary32.ofRatio negative n 1 =
      Format.binary32.signBit negative + ((s + 149).toNat * 2 ^ 23 + m) := by
  have top : max (ratioLog2 n 1 - Format.binary32.fractionBits) Format.binary32.leastScale = s := by
    show max (ratioLog2 n 1 - 23) (-149) = s
    rw [ratioLog2_one pos, scale]
    exact max_eq_left least
  unfold Format.ofRatio
  rw [if_neg pos]
  simp only [top, rounded]
  exact if_neg (not_le.2 range)

theorem unpack_short (short : n.log2 ≤ 23) :
    Format.binary32.unpack (Format.binary32.ofRatio negative n 1) =
      .finite negative (n * 2 ^ (23 - n.log2)) (-((23 - n.log2 : Nat) : Int)) := by
  obtain ⟨low, high⟩ := (Nat.log2_eq_iff pos).1 rfl
  have sum : n.log2 + (23 - n.log2) = 23 := by omega
  have full : 2 ^ 23 ≤ n * 2 ^ (23 - n.log2) :=
    calc 2 ^ 23 = 2 ^ n.log2 * 2 ^ (23 - n.log2) := by rw [← pow_add, sum]
      _ ≤ n * 2 ^ (23 - n.log2) := Nat.mul_le_mul_right _ low
  have less : n * 2 ^ (23 - n.log2) < 2 ^ 24 :=
    calc n * 2 ^ (23 - n.log2) < 2 ^ (n.log2 + 1) * 2 ^ (23 - n.log2) :=
          Nat.mul_lt_mul_of_pos_right high (Nat.two_pow_pos _)
      _ = 2 ^ 24 := by rw [← pow_add, add_right_comm, sum]
  have holds : Format.binary32.Holds (n * 2 ^ (23 - n.log2)) (-((23 - n.log2 : Nat) : Int)) := by
    refine ⟨less, ?_, fun _ => full, ?_⟩
    · show (-149 : Int) ≤ _
      omega
    · show (-((23 - n.log2 : Nat) : Int) + 149).toNat * 2 ^ 23 +
        n * 2 ^ (23 - n.log2) < 255 * 2 ^ 23
      omega
  have rounded : divRound (scaled n 1 (- -((23 - n.log2 : Nat) : Int))).1
      (scaled n 1 (- -((23 - n.log2 : Nat) : Int))).2 = n * 2 ^ (23 - n.log2) := by
    rw [Int.neg_neg, scaled_nat, divRound_one]
  rw [ofRatio_whole pos negative (by omega) rounded holds.least holds.range]
  exact Format.unpack_holds holds negative

/-- longer numbers are rounded to twenty-four digits, and a carry out of them doubles the scale -/
theorem unpack_long (long : 24 ≤ n.log2) (small : n.log2 < 64) :
    ∃ m k : Nat, m * 2 ^ k = nearest n ∧
      Format.binary32.unpack (Format.binary32.ofRatio negative n 1) = .finite negative m k := by
  obtain ⟨low, high⟩ := (Nat.log2_eq_iff pos).1 rfl
  obtain ⟨k, digits⟩ := Nat.exists_eq_add_of_le (Nat.le_of_succ_le long)
  have shift : n.log2 - 23 = k := by omega
  rw [digits, pow_add] at low
  rw [digits, add_right_comm, pow_add] at high
  have below : 2 ^ 23 ≤ n / 2 ^ k := (Nat.le_div_iff_mul_le (Nat.two_pow_pos k)).2 low
  have above : n / 2 ^ k < 2 ^ 24 := (Nat.div_lt_iff_lt_mul (Nat.two_pow_pos k)).2 high
  have least := div_le_divRound n (2 ^ k)
  have most := divRound_le n (2 ^ k)
  have near : nearest n = divRound n (2 ^ k) * 2 ^ k := by rw [nearest, shift]
  have rounded : divRound (scaled n 1 (-(k : Int))).1 (scaled n 1 (-(k : Int))).2 =
      divRound n (2 ^ k) := by
    rw [scaled_neg, one_mul]
  have range : ((k : Int) + 149).toNat * 2 ^ 23 + divRound n (2 ^ k) < 255 * 2 ^ 23 := by omega
  have packed := ofRatio_whole pos negative (by omega) rounded (by omega) range
  rw [packed, near]
  rcases lt_or_ge (divRound n (2 ^ k)) (2 ^ 24) with fits | carry
  · have full : 2 ^ 23 ≤ divRound n (2 ^ k) := below.trans least
    have holds : Format.binary32.Holds (divRound n (2 ^ k)) k := holds_whole full fits (by omega)
    exact ⟨divRound n (2 ^ k), k, rfl, Format.unpack_holds holds negative⟩
  · have carried : divRound n (2 ^ k) = 2 ^ 24 := by omega
    have holds : Format.binary32.Holds (2 ^ 23) ((k + 1 : Nat) : Int) :=
      holds_whole (by decide) (by decide) (by omega)
    have pattern : ((k : Int) + 149).toNat * 2 ^ 23 + divRound n (2 ^ k) =
        (((k + 1 : Nat) : Int) + 149).toNat * 2 ^ 23 + 2 ^ 23 := by omega
    refine ⟨2 ^ 23, k + 1, ?_, ?_⟩
    · rw [carried, pow_succ 2 k]
      omega
    · rw [pattern]
      exact Format.unpack_holds holds negative

end

/-- a whole number after rounding -/
def rounded (n : Int) : Int := if n < 0 then -(nearest n.natAbs : Int) else nearest n.natAbs

theorem datum_ofInt {n : Int} (small : n.natAbs < 2 ^ 64) :
    ∃ m s, (Single.ofInt n).datum = .finite (n < 0) m s ∧
      (Single.ofInt n).datum.Is (rounded n) := by
  have fits := Format.binary32.pack_lt (by decide) (.finite (n < 0) n.natAbs 0)
  rw [show Format.binary32.pack (.finite (n < 0) n.natAbs 0) =
    Format.binary32.ofRatio (n < 0) (n.natAbs * 1) 1 from rfl, mul_one] at fits
  have datum : (Single.ofInt n).datum =
      Format.binary32.unpack (Format.binary32.ofRatio (n < 0) n.natAbs 1) :=
    congrArg Format.binary32.unpack (Nat.mod_eq_of_lt fits)
  rw [datum]
  rcases Nat.eq_zero_or_pos n.natAbs with zero | pos
  · obtain rfl : n = 0 := Int.natAbs_eq_zero.1 zero
    exact ⟨0, -149, rfl, rfl, rfl⟩
  rcases lt_or_ge n.natAbs.log2 24 with short | long
  · have same : nearest n.natAbs = n.natAbs :=
      nearest_of_lt ((Nat.log2_lt pos.ne').1 short)
    have exact := is_finite_neg (n < 0) n.natAbs (23 - n.natAbs.log2)
    rw [unpack_short pos.ne' _ (Nat.le_of_lt_succ short), rounded, same]
    refine ⟨_, _, rfl, ?_⟩
    simpa only [decide_eq_true_eq] using exact
  · obtain ⟨m, k, near, unpacked⟩ :=
      unpack_long pos.ne' (n < 0) long ((Nat.log2_lt pos.ne').2 small)
    have exact := is_finite_nat (n < 0) m k
    rw [unpacked, rounded, ← near]
    refine ⟨_, _, rfl, ?_⟩
    simpa only [decide_eq_true_eq] using exact

/-! ## how far numbers are exact -/

theorem nearest_of_le {n : Nat} (small : n ≤ 2 ^ 24) : nearest n = n := by
  rcases lt_or_eq_of_le small with less | rfl
  · exact nearest_of_lt less
  · decide

theorem lt_nearest {n : Nat} (large : 2 ^ 24 + 1 < n) : 2 ^ 24 < nearest n := by
  have pos : n ≠ 0 := by omega
  have digits : 24 ≤ n.log2 := (Nat.le_log2 pos).2 (by omega)
  obtain ⟨k, shift⟩ : ∃ k, n.log2 = 24 + k := Nat.exists_eq_add_of_le digits
  have low := Nat.log2_self_le pos
  have least : n / 2 ^ (k + 1) * 2 ^ (k + 1) ≤ nearest n := by
    rw [nearest, show n.log2 - 23 = k + 1 by omega]
    exact Nat.mul_le_mul_right _ (div_le_divRound n _)
  refine lt_of_lt_of_le ?_ least
  rcases Nat.eq_zero_or_pos k with rfl | more
  · omega
  · have four : 2 ^ 2 ≤ 2 ^ (k + 1) := Nat.pow_le_pow_right (by decide) (by omega)
    have full : 2 ^ 23 ≤ n / 2 ^ (k + 1) := by
      rw [Nat.le_div_iff_mul_le (Nat.two_pow_pos _), ← pow_add]
      rwa [shift, show 24 + k = 23 + (k + 1) by omega] at low
    calc 2 ^ 24 < 2 ^ 23 * 2 ^ 2 := by decide
      _ ≤ n / 2 ^ (k + 1) * 2 ^ (k + 1) := Nat.mul_le_mul full four

theorem rounded_of_le {n : Int} (small : n.natAbs ≤ 2 ^ 24) : rounded n = n := by
  rw [rounded, nearest_of_le small]
  split <;> omega

theorem rounded_of_eq {n : Int} (next : n.natAbs = 2 ^ 24 + 1) : rounded n = n.sign * 2 ^ 24 := by
  have near : nearest (2 ^ 24 + 1) = 2 ^ 24 := by decide
  rw [rounded, next, near]
  split
  · next negative => rw [Int.sign_eq_neg_one_of_neg negative]; rfl
  · next positive => rw [Int.sign_eq_one_of_pos (by omega)]; rfl

theorem lt_rounded {n : Int} (large : 2 ^ 24 + 1 < n.natAbs) : 2 ^ 24 < (rounded n).natAbs := by
  have := lt_nearest large
  rw [rounded]
  split <;> omega

end Number
end Terrain
