import DecimalComma.Proofs.Double.Rounding
import DecimalComma.Proofs.Double.Unpacked

/-! Rounding to nearest, by distances. No finite value is nearer to a number than the one that it
rounds to, which is even if another one is as near; from half a step beyond the largest finite value
on, a number rounds to infinity. -/
namespace DecimalComma.Double

variable {q : ℚ} {n m : Nat}

/-- The number that a finite value is. -/
def number (x : Float) : ℚ := if isNegative x then -toRat (ordinal x) else toRat (ordinal x)

/-- A value is the nearest one to a number that is not negative, with ties to the even significand
and with infinity for numbers that round to 2 to the power 1024 or more. The parity of a significand
is that of the ordinal. -/
structure IsNearest (q : ℚ) (x : Float) : Prop where
  not_isNaN : ¬ isNaN x
  isInfinite_iff : isInfinite x ↔ 2 ^ 1024 - 2 ^ 970 ≤ q
  nearest : isFinite x → ∀ y, isFinite y → |number x - q| ≤ |number y - q|
  even : isFinite x → ∀ y, isFinite y → number y ≠ number x →
    |number y - q| = |number x - q| → ordinal x % 2 = 0

theorem toRat_zero : toRat 0 = 0 := by simp [toRat, units_zero]

theorem toRat_nonneg (n : Nat) : 0 ≤ toRat n := by
  rw [← toRat_zero]
  exact toRat_strictMono.monotone (Nat.zero_le n)

theorem abs_number (x : Float) : |number x| = toRat (ordinal x) := by
  unfold number
  split_ifs
  · rw [abs_neg, abs_of_nonneg (toRat_nonneg _)]
  · exact abs_of_nonneg (toRat_nonneg _)

/-- A magnitude below the one rounded to is no nearer, and as near only if that one is even. -/
theorem Rounds.dist_below (h : Rounds q n) (hm : m < n) :
    |toRat n - q| ≤ |toRat m - q| ∧ (|toRat m - q| = |toRat n - q| → n % 2 = 0) := by
  obtain ⟨k, rfl⟩ := Nat.exists_eq_succ_of_ne_zero (Nat.ne_zero_of_lt hm)
  have hle := h.le_infinityOrdinal
  have habove : RoundsAbove k q := (h.lt_iff k (by omega)).mp (Nat.lt_succ_self k)
  have hmid : (toRat k + toRat (k + 1)) / 2 ≤ q := habove.midpoint_le
  have hmk : toRat m ≤ toRat k := toRat_strictMono.monotone (by omega)
  have hk := toRat_strictMono (Nat.lt_succ_self k)
  have hfar : |toRat m - q| = q - toRat m := by
    rw [abs_sub_comm, abs_of_nonneg (by linarith)]
  rw [hfar]
  refine ⟨abs_le.mpr ⟨by linarith, by linarith⟩, ?_⟩
  intro htie
  -- as far from the midpoint below it, so the number is the midpoint
  have hq : midpoint k = q := by
    unfold midpoint
    rcases le_total (toRat (k + 1)) q with hlow | hhigh
    · rw [abs_of_nonpos (by linarith)] at htie
      linarith
    · rw [abs_of_nonneg (by linarith)] at htie
      linarith
  have hodd : k % 2 = 1 := (habove.resolve_left (by rw [hq]; exact lt_irrefl q)).2
  omega

theorem Rounds.dist_above (h : Rounds q n) (hm : n < m) (hn : n < infinityOrdinal) :
    |toRat n - q| ≤ |toRat m - q| ∧ (|toRat m - q| = |toRat n - q| → n % 2 = 0) := by
  have hnot : ¬ RoundsAbove n q := fun habove => lt_irrefl n ((h.lt_iff n hn).mpr habove)
  have hmid : q ≤ (toRat n + toRat (n + 1)) / 2 := not_lt.mp fun hlt => hnot (.inl hlt)
  have hmn : toRat (n + 1) ≤ toRat m := toRat_strictMono.monotone hm
  have hk := toRat_strictMono (Nat.lt_succ_self n)
  have hfar : |toRat m - q| = toRat m - q := abs_of_nonneg (by linarith)
  rw [hfar]
  refine ⟨abs_le.mpr ⟨by linarith, by linarith⟩, ?_⟩
  intro htie
  have hq : midpoint n = q := by
    unfold midpoint
    rcases le_total (toRat n) q with hlow | hhigh
    · rw [abs_of_nonpos (by linarith)] at htie
      linarith
    · rw [abs_of_nonneg (by linarith)] at htie
      linarith
  have heven : n % 2 ≠ 1 := fun hodd => hnot (.inr ⟨hq, hodd⟩)
  omega

/-- No magnitude is nearer to a number than the one that it rounds to, which is even if another one
is as near. -/
theorem Rounds.dist (h : Rounds q n) (hm : m < infinityOrdinal) :
    |toRat n - q| ≤ |toRat m - q| ∧ (m ≠ n → |toRat m - q| = |toRat n - q| → n % 2 = 0) := by
  rcases Nat.lt_trichotomy m n with hlt | rfl | hgt
  · exact ⟨(h.dist_below hlt).1, fun _ => (h.dist_below hlt).2⟩
  · exact ⟨le_rfl, fun hne => absurd rfl hne⟩
  · have hn : n < infinityOrdinal := hgt.trans hm
    exact ⟨(h.dist_above hgt hn).1, fun _ => (h.dist_above hgt hn).2⟩

theorem midpoint_last : midpoint (infinityOrdinal - 1) = 2 ^ 1024 - 2 ^ 970 := by
  have hu := unitsOfOne_pos
  have hsum : units (infinityOrdinal - 1) + units (infinityOrdinal - 1 + 1) +
      2 * 2 ^ 970 * unitsOfOne = 2 * 2 ^ 1024 * unitsOfOne := by decide +kernel
  have hq : (units (infinityOrdinal - 1) + units (infinityOrdinal - 1 + 1) : ℚ) =
      2 * (2 ^ 1024 - 2 ^ 970) * unitsOfOne := by
    rw [mul_sub, sub_mul, eq_sub_iff_add_eq]
    simpa only [Nat.cast_add, Nat.cast_mul, Nat.cast_pow, Nat.cast_ofNat] using
      congrArg (Nat.cast (R := ℚ)) hsum
  unfold midpoint toRat
  rw [← add_div, hq]
  field_simp

/-- Half a step beyond the last finite magnitude, rounding goes to infinity. -/
theorem Rounds.eq_infinityOrdinal_iff (h : Rounds q n) :
    n = infinityOrdinal ↔ 2 ^ 1024 - 2 ^ 970 ≤ q := by
  have hi := infinityOrdinal_eq
  have hlast := h.lt_iff (infinityOrdinal - 1) (by omega)
  have hodd : (infinityOrdinal - 1) % 2 = 1 := by omega
  have hle := h.le_infinityOrdinal
  have hn : n = infinityOrdinal ↔ infinityOrdinal - 1 < n := by omega
  rw [hn, hlast, RoundsAbove, midpoint_last, le_iff_lt_or_eq]
  tauto

theorem number_ofOrdinal (h : n ≤ infinityOrdinal) : number (ofOrdinal false n) = toRat n := by
  unfold number
  rw [isNegative_ofOrdinal false h, ordinal_ofOrdinal false h]
  rfl

/-- Among the values that are not negative one is as near to such a number as any. -/
theorem abs_ordinal_sub_le (hq : 0 ≤ q) (y : Float) :
    |toRat (ordinal y) - q| ≤ |number y - q| := by
  have h := abs_abs_sub_abs_le (number y) q
  rwa [abs_number, abs_of_nonneg hq] at h

theorem isNearest_ofOrdinal (hq : 0 ≤ q) (h : Rounds q n) : IsNearest q (ofOrdinal false n) := by
  have hn := h.le_infinityOrdinal
  have ho := ordinal_ofOrdinal false hn
  constructor
  case not_isNaN =>
    rw [isNaN_iff, ho]
    omega
  case isInfinite_iff => rw [isInfinite_iff, ho, h.eq_infinityOrdinal_iff]
  case nearest =>
    intro _ y hy
    rw [number_ofOrdinal hn]
    exact (h.dist (isFinite_iff.mp hy)).1.trans (abs_ordinal_sub_le hq y)
  case even =>
    intro _ y hy hne htie
    rw [number_ofOrdinal hn] at hne htie
    rw [ho]
    have hdist := h.dist (isFinite_iff.mp hy)
    have hzero := (h.dist (m := 0) (by decide)).1
    have hle := abs_ordinal_sub_le hq y
    by_cases hm : ordinal y = n
    · rcases eq_or_eq_neg_of_abs_eq (abs_number y) with hy' | hy'
      · exact absurd (hm ▸ hy') hne
      · -- the other sign is as near only where both are zero
        have ht := toRat_nonneg n
        rw [hy', hm, abs_of_nonpos (by linarith)] at htie
        rw [toRat_zero, zero_sub, abs_neg, abs_of_nonneg hq] at hzero
        have h0 : toRat n = 0 := by linarith
        exact absurd (by rw [hy', hm, h0, neg_zero]) hne
    · exact hdist.2 hm (by linarith)

end DecimalComma.Double
