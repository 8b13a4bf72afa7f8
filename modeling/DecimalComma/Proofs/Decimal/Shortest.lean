import DecimalComma.Proofs.Decimal.Value

/-! The shortest decimal of a magnitude reads back as that magnitude, and where its point lies is told
by how large the magnitude is. -/
namespace DecimalComma.Decimal
open Double (infinityOrdinal binadeSize)

theorem ordinal_ofOrdinal {n : Nat} (h : n ≤ infinityOrdinal) : (ofOrdinal n).ordinal = n :=
  ordinal_of_toRat h (toRat_ofOrdinal n)

theorem ordinal_of_shorten? {n places : Nat} {d d' : Decimal} (h : shorten? n d places = some d') :
    d'.ordinal = n := by
  unfold shorten? at h
  dsimp only at h
  by_cases hlow : (d.below places).ordinal = n
  · rw [if_pos hlow] at h
    by_cases hhigh : (d.below places).next.ordinal = n
    · rw [if_pos hhigh] at h
      split at h
      · cases h
        exact hlow
      · cases h
        split_ifs
        · exact hlow
        · exact hhigh
      · cases h
        exact hhigh
    · rw [if_neg hhigh] at h
      cases h
      exact hlow
  · rw [if_neg hlow] at h
    split_ifs at h with hhigh
    cases h
    exact hhigh

theorem ordinal_shortest {n : Nat} (h : n ≤ infinityOrdinal) : (shortest n).ordinal = n := by
  unfold shortest
  dsimp only
  rw [ordinal_congr (toRat_trim _)]
  generalize hf : List.findSome? _ _ = found
  cases found with
  | none => exact ordinal_ofOrdinal h
  | some d =>
    obtain ⟨k, -, hk⟩ := List.exists_of_findSome?_eq_some hf
    exact ordinal_of_shorten? hk

theorem coefficient_shortest_ne_zero {n : Nat} (h : n ≤ infinityOrdinal) (hn : n ≠ 0) :
    (shortest n).coefficient ≠ 0 := by
  intro hc
  apply hn
  have hz : (shortest n).toRat = Double.toRat 0 := by
    simp [toRat, hc, Double.toRat, Double.units_zero]
  rw [← ordinal_shortest h, ordinal_of_toRat (Nat.zero_le _) hz]

theorem trim_shortest (n : Nat) : (shortest n).trim = shortest n := trim_trim _

theorem coefficient_shortest_mod {n : Nat} (h : n ≤ infinityOrdinal) (hn : n ≠ 0) :
    (shortest n).coefficient % 10 ≠ 0 :=
  (trim_coefficient _).resolve_left (coefficient_shortest_ne_zero h hn)

theorem shortest_eq_zero {n : Nat} (h : (shortest n).coefficient = 0) : shortest n = ⟨0, 0⟩ :=
  trim_eq_zero h

theorem length_digits_pos (d : Decimal) : 0 < d.digits.length :=
  List.length_pos_of_ne_nil Nat.toDigits_ne_nil

theorem coefficient_lt (d : Decimal) : d.coefficient < 10 ^ d.digits.length :=
  (Nat.length_toDigits_le_iff (by norm_num) d.length_digits_pos).mp le_rfl

theorem le_coefficient {d : Decimal} (h : d.coefficient ≠ 0) :
    10 ^ (d.digits.length - 1) ≤ d.coefficient := by
  by_contra hlt
  rcases Nat.eq_zero_or_pos (d.digits.length - 1) with h0 | hpos
  · rw [h0] at hlt
    omega
  · have hle := (Nat.length_toDigits_le_iff (by norm_num) hpos).mpr (not_le.mp hlt)
    unfold digits at hpos hle
    omega

theorem toRat_lt (d : Decimal) : d.toRat < 10 ^ d.point := by
  have hc : (d.coefficient : ℚ) < 10 ^ (d.digits.length : ℤ) := by
    rw [zpow_natCast]
    exact_mod_cast d.coefficient_lt
  have he : (0 : ℚ) < 10 ^ d.exponent := by positivity
  unfold toRat point
  rw [zpow_add₀ (by norm_num)]
  exact mul_lt_mul_of_pos_right hc he

theorem le_toRat {d : Decimal} (h : d.coefficient ≠ 0) : 10 ^ (d.point - 1) ≤ d.toRat := by
  have hlen := d.length_digits_pos
  have hp : d.point - 1 = (d.digits.length - 1 : Nat) + d.exponent := by
    unfold point
    omega
  have hc : (10 : ℚ) ^ ((d.digits.length - 1 : Nat) : ℤ) ≤ d.coefficient := by
    rw [zpow_natCast]
    exact_mod_cast le_coefficient h
  have he : (0 : ℚ) < 10 ^ d.exponent := by positivity
  unfold toRat
  rw [hp, zpow_add₀ (by norm_num)]
  exact mul_le_mul_of_nonneg_right hc he.le

theorem toRat_one (e : ℤ) : toRat ⟨1, e⟩ = 10 ^ e := by
  unfold toRat
  rw [Nat.cast_one, one_mul]

theorem ordinal_le_of_lt_point {n : Nat} {e : ℤ} (h : n ≤ infinityOrdinal) (hn : n ≠ 0)
    (hp : e < (shortest n).point) : (⟨1, e⟩ : Decimal).ordinal ≤ n := by
  have hle := le_toRat (coefficient_shortest_ne_zero h hn)
  have he : (10 : ℚ) ^ e ≤ 10 ^ ((shortest n).point - 1) :=
    zpow_le_zpow_right₀ (by norm_num) (by omega)
  rw [← ordinal_shortest h]
  apply ordinal_le_ordinal
  rw [toRat_one]
  exact he.trans hle

theorem le_ordinal_of_point_le {n : Nat} {e : ℤ} (h : n ≤ infinityOrdinal)
    (hp : (shortest n).point ≤ e) : n ≤ (⟨1, e⟩ : Decimal).ordinal := by
  have he : (10 : ℚ) ^ (shortest n).point ≤ 10 ^ e := zpow_le_zpow_right₀ (by norm_num) hp
  conv_lhs => rw [← ordinal_shortest h]
  apply ordinal_le_ordinal
  rw [toRat_one]
  exact ((toRat_lt _).trans_le he).le

/-- The least number that is typed in positional form without being an integer. -/
def typedFrom : Nat := ordinal ⟨1, -4⟩

theorem shortest_typedFrom : shortest typedFrom = ⟨1, -4⟩ := by decide +kernel

/-- That number is the first one that is not below a ten-thousandth. -/
theorem typedFrom_le_iff {n : Nat} : typedFrom ≤ n ↔ 1 / 10000 ≤ Double.toRat n := by
  have hfrom : 1 / 10000 ≤ Double.toRat typedFrom := by decide +kernel
  have hbelow : Double.toRat (typedFrom - 1) < 1 / 10000 := by decide +kernel
  constructor
  · intro h
    exact hfrom.trans (Double.toRat_strictMono.monotone h)
  · intro h
    have := Double.toRat_strictMono.lt_iff_lt.mp (hbelow.trans_le h)
    omega

/-- The point of a number lies above the lowest place iff the number is large enough. -/
theorem lt_point_shortest_iff {n : Nat} (h : n ≤ infinityOrdinal) (hn : n ≠ 0) :
    -4 < (shortest n).point ↔ typedFrom ≤ n := by
  constructor
  · exact ordinal_le_of_lt_point h hn
  · intro hle
    by_contra hp
    have heq : n = typedFrom := Nat.le_antisymm (le_ordinal_of_point_le h (by omega)) hle
    rw [heq, shortest_typedFrom] at hp
    revert hp
    decide

theorem units_mod_of_large {n : Nat} (h : 1075 * binadeSize ≤ n) :
    Double.units n % Double.unitsOfOne = 0 := by
  have he : 1074 ≤ Double.binade n := by
    unfold Double.binade
    have := (Nat.le_div_iff_mul_le Double.binadeSize_pos).mpr h
    omega
  unfold Double.units
  rw [Nat.shiftLeft_eq, ← mul_unitsOfOne_eq he, ← Nat.mul_assoc]
  exact Nat.mul_mod_left _ _

/-- What is no integer has at most sixteen digits before the point. -/
theorem point_shortest_le {n : Nat} (h : n ≤ infinityOrdinal)
    (hn : Double.units n % Double.unitsOfOne ≠ 0) : (shortest n).point ≤ 16 := by
  by_contra hp
  have hne : n ≠ 0 := by
    intro hx
    subst hx
    exact hn (Nat.zero_mod _)
  have hlarge : 1075 * binadeSize ≤ ordinal ⟨1, 16⟩ := by decide +kernel
  have hle : ordinal ⟨1, 16⟩ ≤ n := ordinal_le_of_lt_point h hne (by omega)
  exact hn (units_mod_of_large (hlarge.trans hle))

end DecimalComma.Decimal
