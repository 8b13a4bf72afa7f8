import DecimalComma.Decimal.Shortest
import DecimalComma.Proofs.Double.Rounding

/-! Decimals as rationals. The ordinal of a decimal is its value rounded to nearest, however the
decimal is written and however large or small it is. -/
namespace DecimalComma.Decimal
open Double (Rounds infinityOrdinal)

/-- The number that a decimal writes. -/
def toRat (d : Decimal) : ℚ := d.coefficient * 10 ^ d.exponent

theorem zpow_eq_div (e : ℤ) : (10 : ℚ) ^ e = (10 ^ e.toNat : Nat) / (10 ^ (-e).toNat : Nat) := by
  push_cast
  rcases Int.le_total 0 e with h | h
  · have hn : (-e).toNat = 0 := by omega
    rw [hn, pow_zero, div_one, ← zpow_natCast, Int.toNat_of_nonneg h]
  · have hn : e.toNat = 0 := by omega
    rw [hn, pow_zero, one_div, ← zpow_natCast, Int.toNat_of_nonneg (by omega), zpow_neg, inv_inv]

theorem toRat_eq_div (d : Decimal) :
    d.toRat = (d.coefficient * 10 ^ d.exponent.toNat : Nat) / (10 ^ (-d.exponent).toNat : Nat) := by
  unfold toRat
  rw [zpow_eq_div, Nat.cast_mul, mul_div_assoc]

theorem toRat_lt_midpoint_zero {d : Decimal}
    (h : d.exponent < -(401 + d.coefficient.log2 : Nat)) : d.toRat < Double.midpoint 0 := by
  have hu := Double.unitsOfOne_pos
  have hunits : 4 * Double.unitsOfOne ≤ 10 ^ 402 := by decide +kernel
  have hupos : 0 < Double.unitsOfOne := by exact_mod_cast hu
  have hn : 2 * d.coefficient * Double.unitsOfOne < 10 ^ (-d.exponent).toNat :=
    calc 2 * d.coefficient * Double.unitsOfOne
        < 2 * 2 ^ (d.coefficient.log2 + 1) * Double.unitsOfOne :=
          Nat.mul_lt_mul_of_pos_right
            (Nat.mul_lt_mul_of_pos_left Nat.lt_log2_self (by norm_num)) hupos
      _ = 2 ^ d.coefficient.log2 * (4 * Double.unitsOfOne) := by rw [pow_succ]; ring
      _ ≤ 10 ^ d.coefficient.log2 * 10 ^ 402 :=
          Nat.mul_le_mul (Nat.pow_le_pow_left (by norm_num) _) hunits
      _ = 10 ^ (d.coefficient.log2 + 402) := (pow_add _ _ _).symm
      _ ≤ 10 ^ (-d.exponent).toNat := Nat.pow_le_pow_right (by norm_num) (by omega)
  have he : d.exponent.toNat = 0 := by omega
  have hmid : Double.midpoint 0 = 1 / (2 * Double.unitsOfOne) := by
    have hone : Double.units 1 = 1 := by decide
    unfold Double.midpoint Double.toRat
    rw [Double.units_zero, hone]
    push_cast
    field_simp
    norm_num
  have hden : (0 : ℚ) < (10 ^ (-d.exponent).toNat : Nat) := by
    exact_mod_cast Nat.pow_pos (by norm_num)
  rw [toRat_eq_div, hmid, he, pow_zero, Nat.mul_one, div_lt_div_iff₀ hden (mul_pos two_pos hu)]
  have hq : (2 * d.coefficient * Double.unitsOfOne : ℚ) < (10 ^ (-d.exponent).toNat : Nat) := by
    exact_mod_cast hn
  linarith

theorem toRat_infinityOrdinal_le {d : Decimal} (hc : d.coefficient ≠ 0) (h : 400 < d.exponent) :
    Double.toRat infinityOrdinal ≤ d.toRat := by
  have hu := Double.unitsOfOne_pos
  have hunits : Double.units infinityOrdinal ≤ 10 ^ 400 * Double.unitsOfOne := by decide +kernel
  have hc' : (1 : ℚ) ≤ d.coefficient := by exact_mod_cast Nat.pos_of_ne_zero hc
  have he : (10 : ℚ) ^ (400 : ℤ) ≤ 10 ^ d.exponent := zpow_le_zpow_right₀ (by norm_num) (by omega)
  have hmax : Double.toRat infinityOrdinal ≤ 10 ^ (400 : ℤ) := by
    unfold Double.toRat
    rw [div_le_iff₀ hu]
    exact_mod_cast hunits
  calc Double.toRat infinityOrdinal ≤ 10 ^ (400 : ℤ) := hmax
    _ ≤ 10 ^ d.exponent := he
    _ ≤ d.coefficient * 10 ^ d.exponent := le_mul_of_one_le_left (by positivity) hc'

theorem rounds_ordinal (d : Decimal) : Rounds d.toRat d.ordinal := by
  unfold ordinal
  split_ifs with hzero hbig
  · rcases hzero with hc | he
    · have hz : d.toRat = Double.toRat 0 := by
        simp [toRat, hc, Double.toRat, Double.units_zero]
      rw [hz]
      exact Double.rounds_toRat (Nat.zero_le _)
    · exact Double.rounds_zero (toRat_lt_midpoint_zero he)
  · exact Double.rounds_infinityOrdinal (toRat_infinityOrdinal_le (by tauto) hbig)
  · rw [toRat_eq_div]
    exact Double.rounds_nearest (Nat.pow_pos (by norm_num))

theorem ordinal_le_infinityOrdinal (d : Decimal) : d.ordinal ≤ infinityOrdinal :=
  d.rounds_ordinal.le_infinityOrdinal

theorem ordinal_le_ordinal {d d' : Decimal} (h : d.toRat ≤ d'.toRat) : d.ordinal ≤ d'.ordinal :=
  d.rounds_ordinal.mono d'.rounds_ordinal h

theorem ordinal_congr {d d' : Decimal} (h : d.toRat = d'.toRat) : d.ordinal = d'.ordinal := by
  have hr := d.rounds_ordinal
  rw [h] at hr
  exact hr.unique d'.rounds_ordinal

theorem ordinal_of_toRat {d : Decimal} {n : Nat} (hn : n ≤ infinityOrdinal)
    (h : d.toRat = Double.toRat n) : d.ordinal = n := by
  have hr := d.rounds_ordinal
  rw [h] at hr
  exact hr.unique (Double.rounds_toRat hn)

theorem toRat_trim (d : Decimal) : d.trim.toRat = d.toRat := by
  fun_induction trim d with
  | case1 d h => simp [toRat, h]
  | case2 d h h10 ih =>
    rw [ih]
    unfold toRat
    have hd : (d.coefficient : ℚ) = (d.coefficient / 10 : Nat) * 10 := by
      exact_mod_cast (Nat.div_mul_cancel (Nat.dvd_of_mod_eq_zero h10)).symm
    rw [hd, zpow_add_one₀ (by norm_num)]
    ring
  | case3 => rfl

theorem trim_eq_zero {d : Decimal} (h : d.trim.coefficient = 0) : d.trim = ⟨0, 0⟩ := by
  fun_induction trim d with
  | case1 => rfl
  | case2 _ _ _ ih => exact ih h
  | case3 _ hne _ => exact absurd h hne

theorem trim_coefficient (d : Decimal) : d.trim.coefficient = 0 ∨ d.trim.coefficient % 10 ≠ 0 := by
  fun_induction trim d with
  | case1 => exact .inl rfl
  | case2 _ _ _ ih => exact ih
  | case3 d _ h => exact .inr h

theorem coefficient_ne_zero_iff {d : Decimal} : d.coefficient ≠ 0 ↔ 0 < d.toRat := by
  have he : (0 : ℚ) < 10 ^ d.exponent := by positivity
  unfold toRat
  rw [mul_pos_iff_of_pos_right he, Nat.cast_pos, Nat.pos_iff_ne_zero]

/-- A number is written in one way without a zero at the end. -/
theorem eq_of_toRat_eq {d d' : Decimal} (h : d.coefficient % 10 ≠ 0) (h' : d'.coefficient % 10 ≠ 0)
    (heq : d.toRat = d'.toRat) : d = d' := by
  wlog hle : d.exponent ≤ d'.exponent generalizing d d'
  · exact (this h' h heq.symm (by omega)).symm
  obtain ⟨k, hk⟩ := Int.exists_add_of_le hle
  have he : (10 : ℚ) ^ d.exponent ≠ 0 := by positivity
  have hc : d.coefficient = d'.coefficient * 10 ^ k := by
    unfold toRat at heq
    rw [hk, zpow_add₀ (by norm_num), zpow_natCast, mul_comm ((10 : ℚ) ^ d.exponent),
      ← mul_assoc] at heq
    exact_mod_cast mul_right_cancel₀ he heq
  obtain rfl : k = 0 := by
    by_contra hk0
    obtain ⟨j, rfl⟩ := Nat.exists_eq_succ_of_ne_zero hk0
    exact h (by rw [hc, pow_succ, ← Nat.mul_assoc, Nat.mul_mod_left])
  cases d
  cases d'
  simp_all

theorem trim_congr {d d' : Decimal} (h : d.toRat = d'.toRat) : d.trim = d'.trim := by
  have htrim : d.trim.toRat = d'.trim.toRat := by rw [toRat_trim, toRat_trim, h]
  have hzero : d.trim.coefficient ≠ 0 ↔ d'.trim.coefficient ≠ 0 := by
    rw [coefficient_ne_zero_iff, coefficient_ne_zero_iff, htrim]
  rcases trim_coefficient d with h0 | h10
  · rw [trim_eq_zero h0, trim_eq_zero (by tauto)]
  · have hne : d'.trim.coefficient ≠ 0 := hzero.mp fun h0 => h10 (by rw [h0])
    exact eq_of_toRat_eq h10 ((trim_coefficient d').resolve_left hne) htrim

theorem trim_trim (d : Decimal) : d.trim.trim = d.trim := trim_congr (toRat_trim d)

/-- Dividing by a power of two is multiplying by the same power of five and shifting the point. -/
theorem toRat_mul_pow_five (m k : Nat) : toRat ⟨m * 5 ^ k, -(k : ℤ)⟩ = m / 2 ^ k := by
  unfold toRat
  push_cast
  rw [zpow_neg, zpow_natCast, show (10 : ℚ) = 5 * 2 by norm_num, mul_pow]
  field_simp

theorem unitsOfOne_eq_mul {e : Nat} (h : e ≤ 1074) :
    Double.unitsOfOne = 2 ^ e * 2 ^ (1074 - e) := by
  have he : 1074 = e + (1074 - e) := by omega
  calc Double.unitsOfOne = 1 <<< (e + (1074 - e)) := by rw [← he, Double.unitsOfOne]
    _ = 2 ^ e * 2 ^ (1074 - e) := by rw [Nat.one_shiftLeft, pow_add]

theorem mul_unitsOfOne_eq {e : Nat} (h : 1074 ≤ e) :
    2 ^ (e - 1074) * Double.unitsOfOne = 2 ^ e := by
  rw [← Double.shiftLeft_eq_mul_unitsOfOne, ← Nat.one_shiftLeft, ← Nat.shiftLeft_add,
    Nat.one_shiftLeft, Nat.sub_add_cancel h]

theorem toRat_ofOrdinal (n : Nat) : (ofOrdinal n).toRat = Double.toRat n := by
  have hu := Double.unitsOfOne_pos
  unfold ofOrdinal Double.toRat Double.units
  generalize Double.significand n = m
  generalize Double.binade n = e
  dsimp only
  split_ifs with h
  · have hmul := mul_unitsOfOne_eq h
    rw [eq_div_iff hu.ne', toRat, zpow_zero, mul_one, Nat.shiftLeft_eq, Nat.shiftLeft_eq]
    exact_mod_cast (by rw [Nat.mul_assoc, hmul])
  · have hmul := unitsOfOne_eq_mul (e := e) (by omega)
    have he : (e : ℤ) - 1074 = -((1074 - e : Nat) : ℤ) := by omega
    rw [he, Nat.pow_eq, toRat_mul_pow_five, hmul, Nat.shiftLeft_eq]
    push_cast
    field_simp

end DecimalComma.Decimal
