import DecimalComma.Proofs.Decimal.Typed

/-! Where numbers as they would be typed and results agree. Every integer up to 2 to the power 53 is a
value, so below it the shortest decimal of an integer is the integer, and that of any other number is
none. From a ten-thousandth to there the two texts differ in the mark alone. -/
namespace DecimalComma

namespace Double

/-- A number of at most 53 bits is shifted to where significands are. -/
theorem exists_significand {k : Nat} (hk : 0 < k) (h : k ≤ 2 * binadeSize) :
    ∃ j, binadeSize ≤ k * 2 ^ j ∧ k * 2 ^ j ≤ 2 * binadeSize := by
  by_cases hlow : binadeSize ≤ k
  · exact ⟨0, by omega, by omega⟩
  · obtain ⟨j, hj⟩ := exists_significand (k := 2 * k) (by omega) (by omega)
    have hstep : k * 2 ^ (j + 1) = 2 * k * 2 ^ j := by ring
    exact ⟨j + 1, by rwa [hstep]⟩
termination_by binadeSize - k

variable {k : Nat}

/-- Every integer up to 2 to the power 53 is a magnitude. -/
theorem exists_toRat_eq (h : k ≤ 2 ^ 53) : ∃ n ≤ infinityOrdinal, toRat n = k := by
  have hb := binadeSize_eq
  rcases Nat.eq_zero_or_pos k with rfl | hk
  · exact ⟨0, Nat.zero_le _, by rw [toRat_zero, Nat.cast_zero]⟩
  obtain ⟨j, hlow, hhigh⟩ := exists_significand hk (by omega)
  have hj : j ≤ 53 := by
    have hpow : 2 ^ j ≤ 2 ^ 53 :=
      calc 2 ^ j ≤ k * 2 ^ j := Nat.le_mul_of_pos_left _ hk
        _ ≤ 2 ^ 53 := by omega
    exact (Nat.pow_le_pow_iff_right (by norm_num)).mp hpow
  have hunits : units ((1074 - j) * binadeSize + k * 2 ^ j) = k * unitsOfOne := by
    rw [units_add (.inr hlow) hhigh, Decimal.unitsOfOne_eq_mul (e := j) (by omega), Nat.mul_assoc]
  refine ⟨(1074 - j) * binadeSize + k * 2 ^ j, ?_, ?_⟩
  · rw [infinityOrdinal_eq, hb]
    omega
  · rw [toRat, hunits, div_eq_iff unitsOfOne_pos.ne', Nat.cast_mul]

/-- A number is an integer iff its magnitude is one. -/
theorem isInteger_of_toRat_eq {x : Float} (h : toRat (ordinal x) = k) : isInteger x := by
  rw [toRat, div_eq_iff unitsOfOne_pos.ne'] at h
  have hunits : units (ordinal x) = k * unitsOfOne := by exact_mod_cast h
  rw [isInteger, hunits, Nat.mul_mod_left, decide_eq_true_iff]

end Double

namespace Decimal

variable {d d' : Decimal} {n k places : Nat}

theorem toRat_of_exponent_nonneg (h : 0 ≤ d.exponent) :
    d.toRat = (d.coefficient * 10 ^ d.exponent.toNat : Nat) := by
  have he : (10 : ℚ) ^ d.exponent = 10 ^ d.exponent.toNat := by
    rw [← zpow_natCast, Int.toNat_of_nonneg h]
  rw [toRat, he]
  push_cast
  rfl

theorem coefficient_of_toRat {j : Nat} (he : d.exponent = -(j : ℤ)) (h : d.toRat = k) :
    d.coefficient = k * 10 ^ j := by
  rw [toRat, he, zpow_neg, zpow_natCast, mul_inv_eq_iff_eq_mul₀ (by positivity)] at h
  exact_mod_cast h

/-- A decimal for an integer without a zero at its end is no fraction. -/
theorem exponent_nonneg_of_toRat (hd : d.coefficient % 10 ≠ 0) (h : d.toRat = k) :
    0 ≤ d.exponent := by
  by_contra hneg
  obtain ⟨j, hj⟩ : ∃ j : Nat, d.exponent = -((j + 1 : Nat) : ℤ) :=
    ⟨(-d.exponent - 1).toNat, by omega⟩
  have hc := coefficient_of_toRat hj h
  rw [hc, pow_succ, ← Nat.mul_assoc, Nat.mul_mod_left] at hd
  exact hd rfl

/-- An integer that reads back as a number below 2 to the power 53 is this number. -/
theorem toRat_eq_of_exponent_nonneg (he : 0 ≤ d.exponent)
    (h : Double.toRat d.ordinal < 2 ^ 53) : d.toRat = Double.toRat d.ordinal := by
  have hd := toRat_of_exponent_nonneg he
  generalize d.coefficient * 10 ^ d.exponent.toNat = k at hd
  by_cases hk : k ≤ 2 ^ 53
  · obtain ⟨n, hn, hnk⟩ := Double.exists_toRat_eq hk
    have heq : d.toRat = Double.toRat n := hd.trans hnk.symm
    rw [heq, ordinal_of_toRat hn heq]
  · obtain ⟨n, hn, hlast⟩ := Double.exists_toRat_eq (k := 2 ^ 53) le_rfl
    have hlast' : Double.toRat n = 2 ^ 53 := by rw [hlast]; norm_num
    have hle : Double.toRat n ≤ d.toRat := by
      rw [hd, hlast]
      exact_mod_cast (not_le.mp hk).le
    have hround : n ≤ d.ordinal := (Double.rounds_toRat hn).mono d.rounds_ordinal hle
    have hback := Double.toRat_strictMono.monotone hround
    linarith

theorem exponent_of_shorten? (h : shorten? n d places = some d') :
    d'.exponent = d.exponent + places := by
  have hlow : (d.below places).exponent = d.exponent + places := rfl
  have hhigh : (d.below places).next.exponent = d.exponent + places := rfl
  unfold shorten? at h
  dsimp only at h
  split at h
  · split at h
    · split at h
      · cases h
        exact hlow
      · cases h
        split_ifs
        · exact hlow
        · exact hhigh
      · cases h
        exact hhigh
    · cases h
      exact hlow
  · split at h
    · cases h
      exact hhigh
    · cases h

theorem isSome_shorten? (h : (d.below places).ordinal = n) : (shorten? n d places).isSome := by
  unfold shorten?
  dsimp only
  rw [if_pos h]
  split
  · split <;> rfl
  · rfl

theorem toDigits_mul_pow (hk : 0 < k) (j : Nat) :
    Nat.toDigits 10 (k * 10 ^ j) = Nat.toDigits 10 k ++ List.replicate j '0' := by
  rw [toDigits_append_digits hk (isDigit_zeros j), Nat.ofDigitChars_replicate_zero, Nat.mul_comm]

theorem exponent_ofOrdinal_nonpos (n : Nat) : (ofOrdinal n).exponent ≤ 0 := by
  unfold ofOrdinal
  dsimp only
  split_ifs
  · exact le_rfl
  · dsimp only
    omega

/-- The shortest decimal of an integer below 2 to the power 53 is the integer. No decimal with fewer
digits reads back unless it is the integer, and the integer is found with its own digits. -/
theorem toRat_shortest (hn : n ≤ Double.infinityOrdinal) (hk : 0 < k) (h : Double.toRat n = k)
    (hlt : k < 2 ^ 53) : (shortest n).toRat = k := by
  have hexp := exponent_ofOrdinal_nonpos n
  obtain ⟨j, hj⟩ : ∃ j : Nat, (ofOrdinal n).exponent = -(j : ℤ) :=
    ⟨(-(ofOrdinal n).exponent).toNat, by omega⟩
  have hc := coefficient_of_toRat hj ((toRat_ofOrdinal n).trans h)
  obtain ⟨size, hsize⟩ : ∃ size, size = (Nat.toDigits 10 k).length := ⟨_, rfl⟩
  have hpos : 0 < size := hsize ▸ List.length_pos_of_ne_nil Nat.toDigits_ne_nil
  have hle : size ≤ 17 :=
    hsize ▸ (Nat.length_toDigits_le_iff (by norm_num) (by norm_num)).mpr (hlt.trans (by norm_num))
  have hlen : (ofOrdinal n).digits.length = size + j := by
    rw [digits, hc, toDigits_mul_pow hk, List.length_append, List.length_replicate, hsize]
  have hwhole : ((ofOrdinal n).below j).ordinal = n := by
    apply ordinal_of_toRat hn
    rw [h, below, hc, hj, Nat.pow_eq, Nat.mul_div_cancel _ (Nat.pow_pos (by norm_num)), toRat]
    simp
  have hsplit : List.range 17 = List.range size ++ (List.range (17 - size)).map (size + ·) := by
    rw [← List.range_add, Nat.add_sub_cancel' hle]
  obtain ⟨d, hd⟩ : ∃ d, (List.range size).findSome? (fun i =>
      shorten? n (ofOrdinal n) (size + j - (i + 1))) = some d := by
    apply Option.isSome_iff_exists.mp
    rw [List.findSome?_isSome_iff]
    refine ⟨size - 1, List.mem_range.mpr (by omega), ?_⟩
    have hplaces : size + j - (size - 1 + 1) = j := by omega
    rw [hplaces]
    exact isSome_shorten? hwhole
  have hshortest : shortest n = d.trim := by
    unfold shortest
    dsimp only
    rw [hlen, hsplit, List.findSome?_append, hd]
    rfl
  obtain ⟨i, hi, hfound⟩ := List.exists_of_findSome?_eq_some hd
  have hsmall := List.mem_range.mp hi
  have hback := ordinal_of_shorten? hfound
  have hwholed : 0 ≤ d.exponent := by
    rw [exponent_of_shorten? hfound, hj]
    omega
  have hbound : Double.toRat d.ordinal < 2 ^ 53 := by
    rw [hback, h]
    exact_mod_cast hlt
  rw [hshortest, toRat_trim, toRat_eq_of_exponent_nonneg hwholed hbound, hback, h]

end Decimal

namespace Layout
open Double
open Numeral (signOf)

variable {l l' : Layout} {d : Decimal} {x : Float}

/-- Without a kept fraction an integer is written in all its digits. -/
theorem writePositional_of_exponent_nonneg (hl : l.keepsFraction = false) (hd : d.coefficient ≠ 0)
    (he : 0 ≤ d.exponent) :
    l.writePositional d = Nat.toDigits 10 (d.coefficient * 10 ^ d.exponent.toNat) := by
  have hlen := d.length_digits_pos
  have hpoint : d.point = d.digits.length + d.exponent := rfl
  have hzeros : d.point.toNat - d.digits.length = d.exponent.toNat := by omega
  have hparts := l.positionalParts_before (d := d) (by omega) (by omega)
  rw [hparts.text, hl, hzeros, Decimal.toDigits_mul_pow (Nat.pos_of_ne_zero hd)]
  exact List.append_nil _

/-- A fraction is written the same whether zero fractions are kept or not. -/
theorem writePositional_congr (hm : l'.mark = l.mark) (he : d.exponent < 0) :
    l'.writePositional d = l.writePositional d := by
  have hin : d.point < d.digits.length := by
    unfold Decimal.point
    omega
  unfold writePositional
  dsimp only
  rw [hm, if_pos hin, if_pos hin]

/-- A comma in place of a point. -/
def commaed (c : Char) : Char := if c = '.' then ',' else c

theorem toList_map_render_result (h : isFinite x) :
    ((result.render x).map commaed).toList =
      (signOf (isNegative x)).spell ++ (result.marked commaed).write (.shortest (ordinal x)) := by
  have hf : ∀ c, c.isDigit ∨ c ∈ ['e', '+', '-'] → commaed c = c := by
    intro c hc
    apply if_neg
    rintro rfl
    revert hc
    decide
  have hsign : (signOf (isNegative x)).spell.map commaed = (signOf (isNegative x)).spell := by
    cases isNegative x <;> rfl
  rw [String.toList_map, toList_render h, List.map_append, hsign, map_write hf]

/-- The shortest decimal of an integer is written in all its digits. -/
theorem write_result_of_isInteger (hf : isFinite x) (hi : isInteger x) (hz : ¬ isZero x)
    (hhigh : Double.toRat (ordinal x) < 2 ^ 53) :
    (result.marked commaed).write (.shortest (ordinal x)) =
      Nat.toDigits 10 (integerPart x) := by
  have hk : 0 < integerPart x := Nat.pos_of_ne_zero ((isZero_iff_integerPart hi).not.mp hz)
  have hx := toRat_ordinal_of_isInteger hi
  have hlt : integerPart x < 2 ^ 53 := by
    rw [hx] at hhigh
    exact_mod_cast hhigh
  have hd := Decimal.toRat_shortest (isFinite_iff.mp hf).le hk hx hlt
  have hmod := coefficient_shortest_mod hf hz
  generalize Decimal.shortest (ordinal x) = d at hd hmod ⊢
  have hc : d.coefficient ≠ 0 := fun h0 => hmod (by rw [h0])
  have he := Decimal.exponent_nonneg_of_toRat hmod hd
  have hvalue : d.coefficient * 10 ^ d.exponent.toNat = integerPart x := by
    rw [Decimal.toRat_of_exponent_nonneg he] at hd
    exact_mod_cast hd
  have hone : (1 : ℚ) ≤ integerPart x := by exact_mod_cast hk
  have hlow : -6 < d.point := by
    rw [lt_point_iff hc, hd]
    exact (zpow_le_one_of_nonpos₀ (by norm_num) (by norm_num)).trans hone
  have hpoint : d.point ≤ 21 := by
    rw [← not_lt, lt_point_iff hc, hd, not_le]
    rw [hx] at hhigh
    exact hhigh.trans (by norm_num)
  rw [write, if_pos ⟨hlow, hpoint⟩, writePositional_of_exponent_nonneg rfl hc he, hvalue]

/-- The shortest decimal of a number that is no integer is none, so both layouts write a fraction. -/
theorem write_result_of_not_isInteger (hf : isFinite x) (hi : ¬ isInteger x)
    (hlow : 1 / 10 ^ 4 ≤ Double.toRat (ordinal x)) (hhigh : Double.toRat (ordinal x) < 2 ^ 53) :
    (result.marked commaed).write (.shortest (ordinal x)) =
      typed.write (.shortest (ordinal x)) := by
  have hn := (isFinite_iff.mp hf).le
  have hunits : units (ordinal x) % unitsOfOne ≠ 0 := by simpa [isInteger] using hi
  have hne : ordinal x ≠ 0 := fun h0 => hunits (by rw [h0, units_zero, Nat.zero_mod])
  have hfraction : (Decimal.shortest (ordinal x)).exponent < 0 := by
    by_contra he
    have hback := Decimal.ordinal_shortest hn
    have hd := Decimal.toRat_eq_of_exponent_nonneg (not_lt.mp he) (hback.symm ▸ hhigh)
    rw [hback, Decimal.toRat_of_exponent_nonneg (not_lt.mp he)] at hd
    exact hi (isInteger_of_toRat_eq hd.symm)
  have hmin : -4 < (Decimal.shortest (ordinal x)).point := by
    rw [Decimal.lt_point_shortest_iff hn hne, Decimal.typedFrom_le_iff]
    norm_num at hlow ⊢
    exact hlow
  have hmax : (Decimal.shortest (ordinal x)).point ≤ 16 := Decimal.point_shortest_le hn hunits
  have hresult : -6 < (Decimal.shortest (ordinal x)).point ∧
      (Decimal.shortest (ordinal x)).point ≤ 21 := by omega
  rw [write, if_pos ⟨hresult.1, hresult.2⟩, write, if_pos ⟨hmin, hmax⟩]
  exact writePositional_congr rfl hfraction

/-- From a ten-thousandth up to 2 to the power 53, a number as it would be typed is the number as a
result with a comma for its point. -/
theorem renderLiteral_eq_map_render_result (hf : isFinite x) (hlow : 1 / 10 ^ 4 ≤ |number x|)
    (hhigh : |number x| < 2 ^ 53) : renderLiteral x = (result.render x).map commaed := by
  rw [abs_number] at hlow hhigh
  have hz : ¬ isZero x := by
    intro hz
    rw [isZero_iff.mp hz, toRat_zero] at hlow
    norm_num at hlow
  rw [← String.toList_inj, toList_map_render_result hf]
  by_cases hi : isInteger x
  · rw [toList_renderLiteral_of_isInteger hf hi, unsignZero_of_not_isZero hz,
      write_result_of_isInteger hf hi hz hhigh]
  · rw [renderLiteral_of_not fun h => hi h.2, toList_render hf,
      write_result_of_not_isInteger hf hi hlow hhigh]

/-- The last fraction before the integers, in all its seventeen digits. -/
theorem renderLiteral_eq_map_render_result_last_fraction :
    let x := ofOrdinal true (1075 * binadeSize - 1)
    isFinite x ∧ 1 / 10 ^ 4 ≤ |number x| ∧ |number x| < 2 ^ 53 ∧
      result.render x = "-4503599627370495.5" ∧
      renderLiteral x = "-4503599627370495,5" := by
  intro x
  obtain ⟨hf, hlow, hhigh, htext⟩ : isFinite x ∧ 1 / 10 ^ 4 ≤ |number x| ∧ |number x| < 2 ^ 53 ∧
      result.render x = "-4503599627370495.5" := by decide +kernel
  refine ⟨hf, hlow, hhigh, htext, ?_⟩
  rw [renderLiteral_eq_map_render_result hf hlow hhigh, htext, ← String.toList_inj,
    String.toList_map]
  rfl

end Layout
end DecimalComma
