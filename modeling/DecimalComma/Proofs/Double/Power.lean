import DecimalComma.Double.Power
import DecimalComma.Proofs.Double.Unpacked
import DecimalComma.Proofs.Double.Rounding

/-! The two conventions for powers. Exponentiation as ECMAScript has it is a table of special operands
over the powers of positive finite numbers; the conventions of C differ from it at the bases of
magnitude one alone. -/
namespace DecimalComma.Double

theorem nearestDyadic_le (m : Nat) (e : Int) : nearestDyadic m e ≤ infinityOrdinal := by
  unfold nearestDyadic
  dsimp only
  split_ifs
  · exact Nat.zero_le _
  · exact le_rfl
  · exact nearest_le_infinityOrdinal _ _

theorem Enclosure.nearest_le (x : Enclosure) : x.nearest ≤ infinityOrdinal := by
  have hn := nearestDyadic_le x.low x.scale
  have hi := infinityOrdinal_eq
  unfold Enclosure.nearest
  dsimp only
  split_ifs <;> omega

theorem powerOrdinal_le (base exponent : Nat) (inverted : Bool) :
    powerOrdinal base exponent inverted ≤ infinityOrdinal := by
  have ho : oneOrdinal ≤ infinityOrdinal := by decide
  unfold powerOrdinal
  split_ifs
  · exact ho
  · exact Nat.zero_le _
  · exact le_rfl
  · exact ho
  · exact Enclosure.nearest_le _

theorem powerOrdinal_infinityOrdinal (exponent : Nat) (inverted : Bool) :
    powerOrdinal infinityOrdinal exponent inverted = if inverted then 0 else infinityOrdinal := by
  have ho : oneOrdinal < infinityOrdinal := by decide
  cases inverted <;> simp [powerOrdinal, ho, ho.ne']

theorem powerOrdinal_zero (exponent : Nat) (inverted : Bool) :
    powerOrdinal 0 exponent inverted = if inverted then infinityOrdinal else 0 := by
  have ho : 0 ≠ oneOrdinal := by decide
  cases inverted <;> simp [powerOrdinal, ho]

theorem powerOrdinal_of_infinite {base : Nat} (h : base ≠ oneOrdinal) (inverted : Bool) :
    powerOrdinal base infinityOrdinal inverted =
      if decide (oneOrdinal < base) = inverted then 0 else infinityOrdinal := by
  have hi : oneOrdinal + 64 * binadeSize ≤ infinityOrdinal := by decide
  unfold powerOrdinal
  rw [if_neg h, if_pos (.inr (.inr hi))]

/-- The number one. -/
def one : Float := ofOrdinal false oneOrdinal

/-- The number without its sign. -/
def magnitude (x : Float) : Float := ofOrdinal false (ordinal x)

/-- The sign of a power: negative for an odd power of a negative number. -/
def powerSign (x y : Float) : Bool := isNegative x && isOddInteger y

/-- The number exponentiation of ECMAScript, operand by operand in the order of its rules. Between
finite operands it is the power of the base's magnitude with the sign of the power. -/
def exponentiate (x y : Float) : Float :=
  if isNaN y then nan
  else if isZero y then one
  else if isNaN x then nan
  else if isInfinite x then ofOrdinal (powerSign x y) (if isNegative y then 0 else infinityOrdinal)
  else if isZero x then ofOrdinal (powerSign x y) (if isNegative y then infinityOrdinal else 0)
  else if isInfinite y then
    if ordinal x = oneOrdinal then nan
    else ofOrdinal false
      (if decide (oneOrdinal < ordinal x) = isNegative y then 0 else infinityOrdinal)
  else if isNegative x && !isInteger y then nan
  else ofOrdinal (powerSign x y) (ordinal (pow (magnitude x) y))

variable {x y : Float}

theorem ordinal_one : ordinal one = oneOrdinal := ordinal_ofOrdinal false (by decide)

/-- Infinity counts as a multiple of two. -/
theorem units_infinityOrdinal : 2 * unitsOfOne ∣ units infinityOrdinal := by
  have h : units infinityOrdinal % (2 * unitsOfOne) = 0 := by decide +kernel
  exact Nat.dvd_of_mod_eq_zero h

theorem isInteger_of_isInfinite (h : isInfinite y) : isInteger y := by
  unfold isInteger
  rw [isInfinite_iff.mp h, Nat.mod_eq_zero_of_dvd (dvd_of_mul_left_dvd units_infinityOrdinal)]
  rfl

theorem isOddInteger_of_isInfinite (h : isInfinite y) : isOddInteger y = false := by
  have heven : units infinityOrdinal / unitsOfOne % 2 = 0 :=
    Nat.mod_eq_zero_of_dvd (Nat.dvd_div_of_mul_dvd (Nat.mul_comm 2 _ ▸ units_infinityOrdinal))
  unfold isOddInteger integerPart
  rw [isInfinite_iff.mp h, heven]
  exact Bool.and_false _

theorem isInteger_of_isZero (h : isZero y) : isInteger y := by
  unfold isInteger
  rw [isZero_iff.mp h, units_zero, Nat.zero_mod]
  rfl

theorem pow_of_isZero (hy : isZero y) : pow x y = one := by
  unfold pow
  rw [if_pos hy]
  rfl

theorem pow_of_one (hx : ordinal x = oneOrdinal) (hn : isNegative x = false) : pow x y = one := by
  have hone : x = one := by
    rw [← ofOrdinal_ordinal x, hx, hn]
    rfl
  unfold pow
  split_ifs
  · rfl
  · exact hone
  all_goals simp_all

/-- Away from the two operands that give one whatever the other, a NaN gives a NaN. -/
theorem pow_of_isNaN (hy : ¬ isZero y) (hx : ¬ (ordinal x = oneOrdinal ∧ isNegative x = false))
    (h : isNaN x ∨ isNaN y) : pow x y = nan := by
  unfold pow
  rw [if_neg hy, if_neg (by simpa using hx), if_pos (by simpa using h)]

/-- Between numbers, the exponent integral where it has to be, the magnitude is `powerOrdinal`. -/
theorem pow_of_not_isNaN (hy : ¬ isZero y) (hnx : ¬ isNaN x) (hny : ¬ isNaN y)
    (h : isNegative x → isFinite x → ¬ isZero x → isInteger y) :
    pow x y = ofOrdinal (powerSign x y) (powerOrdinal (ordinal x) (ordinal y) (isNegative y)) := by
  by_cases hx : ordinal x = oneOrdinal ∧ isNegative x = false
  · rw [pow_of_one hx.1 hx.2, powerSign, hx.1, hx.2, powerOrdinal, if_pos rfl]
    rfl
  · unfold pow
    rw [if_neg hy, if_neg (by simpa using hx), if_neg (by simp [hnx, hny]), if_neg]
    · rfl
    · simp only [Bool.and_eq_true, Bool.not_eq_true', not_and]
      intro hh
      simp [h hh.1.1 hh.1.2 (by simp [hh.2])]

theorem pow_of_not_isInteger (hx : isFinite x) (hz : ¬ isZero x) (hn : isNegative x)
    (hi : ¬ isInteger y) : pow x y = nan := by
  have hy : ¬ isZero y := fun h => hi (isInteger_of_isZero h)
  unfold pow
  rw [if_neg hy, if_neg (by simp [hn])]
  split_ifs with h1 h2
  · rfl
  · rfl
  · simp_all

/-- The power of zero is zero, or infinite under a negative exponent. -/
theorem pow_of_isZero_left (hx : isZero x) (hy : ¬ isZero y) (hny : ¬ isNaN y) :
    pow x y = ofOrdinal (powerSign x y) (if isNegative y then infinityOrdinal else 0) := by
  have hnx := (isFinite_iff_not.mp (isFinite_of_isZero hx)).1
  rw [pow_of_not_isNaN hy hnx hny fun _ _ hz => absurd hx hz, isZero_iff.mp hx, powerOrdinal_zero]

theorem ordinal_magnitude (h : isFinite x) : ordinal (magnitude x) = ordinal x :=
  ordinal_ofOrdinal false (isFinite_iff.mp h).le

theorem ordinal_pow_magnitude (hx : isFinite x) (hy : ¬ isZero y) (hny : ¬ isNaN y) :
    ordinal (pow (magnitude x) y) = powerOrdinal (ordinal x) (ordinal y) (isNegative y) := by
  have hm := ordinal_magnitude hx
  have hneg : isNegative (magnitude x) = false :=
    isNegative_ofOrdinal false (isFinite_iff.mp hx).le
  have hnan : ¬ isNaN (magnitude x) := by
    rw [isNaN_iff, hm, ← isNaN_iff]
    exact (isFinite_iff_not.mp hx).1
  rw [pow_of_not_isNaN hy hnan hny (by simp [hneg]), hm]
  exact ordinal_ofOrdinal _ (powerOrdinal_le _ _ _)

/-- A base of magnitude one is none of the special operands. -/
theorem special_of_ordinal_eq_one (hx : ordinal x = oneOrdinal) :
    ¬ isNaN x ∧ ¬ isInfinite x ∧ ¬ isZero x := by
  have hone : 0 < oneOrdinal ∧ oneOrdinal < infinityOrdinal := by decide
  rw [isNaN_iff, isInfinite_iff, isZero_iff]
  omega

/-- The operands at which C has one and ECMAScript a NaN in some cases: a base of one, and minus one
under an infinite exponent. -/
def PowerOfOne (x y : Float) : Prop :=
  ordinal x = oneOrdinal ∧ (isNegative x = false ∨ isInfinite y)

theorem pow_of_powerOfOne (h : PowerOfOne x y) : pow x y = one := by
  obtain ⟨hx, hn⟩ := h
  by_cases hneg : isNegative x = false
  · exact pow_of_one hx hneg
  have hinf : isInfinite y := hn.resolve_left hneg
  have hzy : ¬ isZero y := fun hz => (isFinite_iff_not.mp (isFinite_of_isZero hz)).2 hinf
  have hny : ¬ isNaN y := by
    rw [isNaN_iff, isInfinite_iff.mp hinf]
    exact lt_irrefl _
  rw [pow_of_not_isNaN hzy (special_of_ordinal_eq_one hx).1 hny
      fun _ _ _ => isInteger_of_isInfinite hinf, powerSign, isOddInteger_of_isInfinite hinf, Bool.and_false, hx, powerOrdinal, if_pos rfl]
  rfl

/-- Elsewhere the two conventions agree. -/
theorem pow_eq_exponentiate (h : ¬ PowerOfOne x y) : pow x y = exponentiate x y := by
  have hx : ¬ (ordinal x = oneOrdinal ∧ isNegative x = false) := fun hx => h ⟨hx.1, .inl hx.2⟩
  unfold exponentiate
  by_cases hny : isNaN y
  · have hzy : ¬ isZero y := fun hz => (isFinite_iff_not.mp (isFinite_of_isZero hz)).1 hny
    rw [if_pos hny]
    exact pow_of_isNaN hzy hx (.inr hny)
  rw [if_neg hny]
  by_cases hzy : isZero y
  · rw [if_pos hzy]
    exact pow_of_isZero hzy
  rw [if_neg hzy]
  by_cases hnx : isNaN x
  · rw [if_pos hnx]
    exact pow_of_isNaN hzy hx (.inl hnx)
  rw [if_neg hnx]
  by_cases hix : isInfinite x
  · have hfx : ¬ isFinite x := fun hf => (isFinite_iff_not.mp hf).2 hix
    rw [if_pos hix, pow_of_not_isNaN hzy hnx hny fun _ hf _ => absurd hf hfx,
      isInfinite_iff.mp hix, powerOrdinal_infinityOrdinal]
  rw [if_neg hix]
  have hfx := isFinite_iff_not.mpr ⟨hnx, hix⟩
  by_cases hzx : isZero x
  · rw [if_pos hzx]
    exact pow_of_isZero_left hzx hzy hny
  rw [if_neg hzx]
  by_cases hiy : isInfinite y
  · have hne : ordinal x ≠ oneOrdinal := fun hx => h ⟨hx, .inr hiy⟩
    rw [if_pos hiy, if_neg hne,
      pow_of_not_isNaN hzy hnx hny fun _ _ _ => isInteger_of_isInfinite hiy, powerSign,
      isOddInteger_of_isInfinite hiy, Bool.and_false, isInfinite_iff.mp hiy,
      powerOrdinal_of_infinite hne]
  rw [if_neg hiy]
  by_cases hdom : isNegative x ∧ ¬ isInteger y
  · rw [if_pos (by simp [hdom])]
    exact pow_of_not_isInteger hfx hzx hdom.1 hdom.2
  · have hint : isNegative x → isInteger y := by simpa using hdom
    rw [if_neg (by simpa using hdom), ordinal_pow_magnitude hfx hzy hny,
      pow_of_not_isNaN hzy hnx hny fun hn _ _ => hint hn]

theorem exponentiate_of_infinite (hx : ordinal x = oneOrdinal) (hy : isInfinite y) :
    exponentiate x y = nan := by
  obtain ⟨hnx, hix, hzx⟩ := special_of_ordinal_eq_one hx
  have hzy : ¬ isZero y := fun hz => (isFinite_iff_not.mp (isFinite_of_isZero hz)).2 hy
  unfold exponentiate
  rw [if_neg hzy, if_neg hnx, if_neg hix, if_neg hzx, if_pos hy, if_pos hx, ite_self]

theorem exponentiate_of_one (hx : ordinal x = oneOrdinal) (hn : isNegative x = false)
    (hy : isFinite y) : exponentiate x y = one := by
  obtain ⟨hnx, hix, hzx⟩ := special_of_ordinal_eq_one hx
  obtain ⟨hny, hiy⟩ := isFinite_iff_not.mp hy
  have hm : pow (magnitude x) y = one := by
    have hone : oneOrdinal ≤ infinityOrdinal := by decide
    have hmx : magnitude x = one := by
      rw [magnitude, hx]
      rfl
    rw [hmx]
    exact pow_of_one ordinal_one (isNegative_ofOrdinal false hone)
  unfold exponentiate
  rw [if_neg hny]
  by_cases hzy : isZero y
  · rw [if_pos hzy]
  · rw [if_neg hzy, if_neg hnx, if_neg hix, if_neg hzx, if_neg hiy, if_neg (by simp [hn]), hm,
      ordinal_one, powerSign, hn]
    rfl

theorem eq_infinity_of_isInfinite_pow (h : isInfinite (pow x y)) :
    pow x y = infinity (powerSign x y) := by
  have hone : ¬ isInfinite one := by
    rw [isInfinite_iff, ordinal_one]
    decide
  have hnan : ¬ isInfinite nan := by decide
  by_cases hzy : isZero y
  · exact absurd (pow_of_isZero hzy ▸ h) hone
  by_cases hx : ordinal x = oneOrdinal ∧ isNegative x = false
  · exact absurd (pow_of_one hx.1 hx.2 ▸ h) hone
  by_cases hn : isNaN x ∨ isNaN y
  · exact absurd (pow_of_isNaN hzy hx hn ▸ h) hnan
  by_cases hd : (isNegative x ∧ isFinite x ∧ ¬ isZero x) ∧ ¬ isInteger y
  · exact absurd (pow_of_not_isInteger hd.1.2.1 hd.1.2.2 hd.1.1 hd.2 ▸ h) hnan
  obtain ⟨hnx, hny⟩ := not_or.mp hn
  have hp := pow_of_not_isNaN hzy hnx hny fun hs hf hz => not_not.mp fun hi => hd ⟨⟨hs, hf, hz⟩, hi⟩
  rw [hp, isInfinite_iff, ordinal_ofOrdinal _ (powerOrdinal_le _ _ _)] at h
  rw [hp, h]
  rfl

end DecimalComma.Double
