import DecimalComma.Double.Rounding
import DecimalComma.Proofs.Double.Encoding

/-! Rounding to nearest, by its thresholds: a quotient rounds beyond a magnitude iff it lies beyond
the midpoint to the next one, or on it and the next one is even. That rounding is monotone and keeps
magnitudes follows from this alone. -/
namespace DecimalComma.Double

theorem shiftLeft_eq_mul_unitsOfOne (n : Nat) : n <<< 1074 = n * unitsOfOne := by
  rw [unitsOfOne, Nat.shiftLeft_eq, Nat.one_shiftLeft]

theorem binadeSize_pos : 0 < binadeSize := by decide

/-- The magnitudes of a binade are evenly spaced, up to the first one of the next binade. -/
theorem units_add {s r : Nat} (h : s = 0 ∨ binadeSize ≤ r) (hr : r ≤ 2 * binadeSize) :
    units (s * binadeSize + r) = r * 2 ^ s := by
  have hb := binadeSize_pos
  unfold units significand binade
  rw [Nat.shiftLeft_eq]
  rcases Nat.lt_or_ge r binadeSize with hlt | hge
  · obtain rfl : s = 0 := h.resolve_right (by omega)
    rw [Nat.zero_mul, Nat.zero_add, if_pos hlt, Nat.div_eq_of_lt hlt]
  · have hn : ¬ s * binadeSize + r < binadeSize := by omega
    rw [if_neg hn, Nat.mul_add_mod_self_right, Nat.add_comm (s * binadeSize),
      Nat.add_mul_div_right _ _ hb]
    rcases Nat.lt_or_ge r (2 * binadeSize) with hlt | hge'
    · have hq : r / binadeSize = 1 := Nat.div_eq_of_lt_le (by omega) (by omega)
      have hm := Nat.div_add_mod r binadeSize
      rw [hq] at hm
      have hsum : binadeSize + r % binadeSize = r := by omega
      rw [hq, hsum, Nat.add_sub_cancel_left]
    · obtain rfl : r = 2 * binadeSize := by omega
      rw [Nat.mul_mod_left, Nat.mul_div_left _ hb]
      have he : 2 + s - 1 = s + 1 := by omega
      rw [he, pow_succ]
      ring

theorem exists_binade (n : Nat) :
    ∃ s r, n = s * binadeSize + r ∧ r < 2 * binadeSize ∧ (s = 0 ∨ binadeSize ≤ r) := by
  have hb := binadeSize_pos
  have hm := Nat.div_add_mod n binadeSize
  have hl := Nat.mod_lt n hb
  rw [Nat.mul_comm] at hm
  cases hq : n / binadeSize with
  | zero =>
    rw [hq] at hm
    exact ⟨0, n, by omega, by omega, .inl rfl⟩
  | succ s =>
    rw [hq, Nat.succ_mul] at hm
    exact ⟨s, binadeSize + n % binadeSize, by omega, by omega, .inr (by omega)⟩

theorem units_lt_succ (n : Nat) : units n < units (n + 1) := by
  obtain ⟨s, r, rfl, hr, hs⟩ := exists_binade n
  rw [Nat.add_assoc, units_add hs (by omega), units_add (by omega) (by omega)]
  have := Nat.two_pow_pos s
  rw [Nat.add_mul]
  omega

theorem units_strictMono : StrictMono units := strictMono_nat_of_lt_succ units_lt_succ

theorem units_zero : units 0 = 0 := by decide

/-- A quotient rounds beyond an integer iff it lies beyond the next midpoint, or on it if the integer
is odd. -/
theorem lt_roundQuotient_iff {num den : Nat} (hd : 0 < den) (k : Nat) :
    k < roundQuotient num den ↔
      (2 * k + 1) * den < 2 * num ∨ (2 * k + 1) * den = 2 * num ∧ k % 2 = 1 := by
  have hr := Nat.mod_lt num hd
  have hm := Nat.div_add_mod num den
  unfold roundQuotient
  dsimp only
  generalize num / den = q at *
  generalize num % den = r at *
  -- the midpoint above `k` against the one above the integer part
  have hlt : k < q → (2 * k + 1) * den + den ≤ 2 * (den * q) := by
    intro h
    calc (2 * k + 1) * den + den = den * (2 * (k + 1)) := by ring
      _ ≤ den * (2 * q) := Nat.mul_le_mul_left den (by omega)
      _ = 2 * (den * q) := by ring
  have heq : k = q → (2 * k + 1) * den = 2 * (den * q) + den := by
    intro hx
    subst hx
    ring
  have hgt : q < k → 2 * (den * q) + 3 * den ≤ (2 * k + 1) * den := by
    intro h
    calc 2 * (den * q) + 3 * den = (2 * q + 3) * den := by ring
      _ ≤ (2 * k + 1) * den := Nat.mul_le_mul_right den (by omega)
  split
  · have hc : 2 * r < den := Nat.compare_eq_lt.mp ‹_›
    omega
  · have hc : 2 * r = den := Nat.compare_eq_eq.mp ‹_›
    omega
  · have hc : den < 2 * r := Nat.compare_eq_gt.mp ‹_›
    omega

/-- In the binade of a quotient its integer part has 53 bits, or fewer in the first binade. -/
theorem binade_spec {scaled den s : Nat} (hd : 0 < den) (hs : s = (scaled / den).log2 - 52) :
    scaled < 2 * binadeSize * (den * 2 ^ s) ∧ (s = 0 ∨ binadeSize * (den * 2 ^ s) ≤ scaled) := by
  have hb := binadeSize_eq
  constructor
  · have hq : scaled / den < 2 ^ (s + 53) :=
      Nat.lt_log2_self.trans_le (Nat.pow_le_pow_right (by decide) (by omega))
    calc scaled < 2 ^ (s + 53) * den := (Nat.div_lt_iff_lt_mul hd).mp hq
      _ = 2 * binadeSize * (den * 2 ^ s) := by rw [hb, pow_add]; ring
  · rcases Nat.eq_zero_or_pos s with h0 | hpos
    · exact .inl h0
    · right
      have hne : scaled / den ≠ 0 := by
        intro h
        rw [h] at hs
        simp at hs
        omega
      have hq : 2 ^ (s + 52) ≤ scaled / den := by
        have := Nat.log2_self_le hne
        rwa [show (scaled / den).log2 = s + 52 by omega] at this
      calc binadeSize * (den * 2 ^ s) = 2 ^ (s + 52) * den := by rw [hb, pow_add]; ring
        _ ≤ scaled := (Nat.le_div_iff_mul_le hd).mp hq

theorem midpoint_below {scaled den s n : Nat} (hd : 0 < den)
    (hle : binadeSize * (den * 2 ^ s) ≤ scaled) (hn : n < s * binadeSize + binadeSize) :
    (units n + units (n + 1)) * den < 2 * scaled := by
  have hsucc := units_lt_succ n
  have hu : units (n + 1) ≤ binadeSize * 2 ^ s := by
    rw [← units_add (.inr (Nat.le_refl _)) (by omega)]
    exact units_strictMono.monotone (by omega)
  calc (units n + units (n + 1)) * den < 2 * (binadeSize * 2 ^ s) * den :=
        Nat.mul_lt_mul_of_pos_right (by omega) hd
    _ = 2 * (binadeSize * (den * 2 ^ s)) := by ring
    _ ≤ 2 * scaled := by omega

theorem midpoint_above {scaled den s n : Nat}
    (hlt : scaled < 2 * binadeSize * (den * 2 ^ s)) (hn : s * binadeSize + 2 * binadeSize ≤ n) :
    2 * scaled < (units n + units (n + 1)) * den := by
  have hb := binadeSize_pos
  have hsucc := units_lt_succ n
  have hu : 2 * binadeSize * 2 ^ s ≤ units n := by
    rw [← units_add (.inr (by omega)) (Nat.le_refl _)]
    exact units_strictMono.monotone hn
  calc 2 * scaled < 2 * (2 * binadeSize * (den * 2 ^ s)) := by omega
    _ = 2 * (2 * binadeSize * 2 ^ s) * den := by ring
    _ ≤ (units n + units (n + 1)) * den := Nat.mul_le_mul_right den (by omega)

theorem midpoint_inside {den s k : Nat} (hs : s = 0 ∨ binadeSize ≤ k) (hk : k < 2 * binadeSize) :
    (units (s * binadeSize + k) + units (s * binadeSize + k + 1)) * den =
      (2 * k + 1) * (den * 2 ^ s) := by
  rw [Nat.add_assoc, units_add hs (by omega), units_add (by omega) (by omega)]
  ring

/-- A quotient rounds beyond a magnitude iff it lies beyond the midpoint to the next one, or on it if
the ordinal is odd. -/
theorem lt_nearest_iff {num den n : Nat} (hd : 0 < den) (hn : n < infinityOrdinal) :
    n < nearest num den ↔
      (units n + units (n + 1)) * den < 2 * (num * unitsOfOne) ∨
        (units n + units (n + 1)) * den = 2 * (num * unitsOfOne) ∧ n % 2 = 1 := by
  have hb := binadeSize_eq
  unfold nearest
  rw [shiftLeft_eq_mul_unitsOfOne]
  dsimp only
  generalize num * unitsOfOne = scaled
  obtain ⟨s, hs⟩ : ∃ s, s = (scaled / den).log2 - 52 := ⟨_, rfl⟩
  obtain ⟨hupper, hlower⟩ := binade_spec hd hs
  rw [← hs, Nat.shiftLeft_eq]
  have hD : 0 < den * 2 ^ s := Nat.mul_pos hd (Nat.two_pow_pos s)
  have hround (k : Nat) := @lt_roundQuotient_iff scaled _ hD k
  generalize roundQuotient scaled (den * 2 ^ s) = r at *
  have hmin : n < min (s * binadeSize + r) infinityOrdinal ↔ n < s * binadeSize + r := by omega
  rw [hmin]
  by_cases hfirst : s ≠ 0 ∧ n < s * binadeSize + binadeSize
  · -- below the binade of the quotient
    have hle := hlower.resolve_left hfirst.1
    have hr : binadeSize - 1 < r := by
      apply (hround _).mpr
      left
      calc (2 * (binadeSize - 1) + 1) * (den * 2 ^ s) < 2 * binadeSize * (den * 2 ^ s) :=
            Nat.mul_lt_mul_of_pos_right (by omega) hD
        _ = 2 * (binadeSize * (den * 2 ^ s)) := Nat.mul_assoc _ _ _
        _ ≤ 2 * scaled := by omega
    have hmid := midpoint_below hd hle hfirst.2
    omega
  by_cases hlast : s * binadeSize + 2 * binadeSize ≤ n
  · -- above it
    have hr : ¬ 2 * binadeSize < r := by
      rw [hround]
      rw [Nat.mul_assoc] at hupper
      rw [Nat.add_mul, Nat.mul_assoc, Nat.mul_assoc]
      omega
    have hmid := midpoint_above hupper hlast
    omega
  · -- in it, where rounding is that of the multiple of the spacing
    obtain ⟨k, rfl⟩ : ∃ k, n = s * binadeSize + k := Nat.exists_eq_add_of_le (by
      rcases Nat.eq_zero_or_pos s with rfl | hpos <;> omega)
    have hpar : (s * binadeSize + k) % 2 = k % 2 := by
      rw [hb]
      omega
    rw [midpoint_inside (by omega) (by omega), hpar, ← hround]
    omega

/-- The number that an ordinal counts; infinity counts as the power of two after the last binade. -/
def toRat (n : Nat) : ℚ := units n / unitsOfOne

def midpoint (n : Nat) : ℚ := (toRat n + toRat (n + 1)) / 2

/-- A number is rounded to a magnitude above `n`: to the even one of two that are equally near. -/
def RoundsAbove (n : Nat) (q : ℚ) : Prop := midpoint n < q ∨ midpoint n = q ∧ n % 2 = 1

theorem unitsOfOne_pos : (0 : ℚ) < unitsOfOne := by
  have h : 0 < unitsOfOne := by decide +kernel
  exact_mod_cast h

theorem toRat_strictMono : StrictMono toRat := by
  intro n m h
  have hu : (units n : ℚ) < units m := by exact_mod_cast units_strictMono h
  exact div_lt_div_of_pos_right hu unitsOfOne_pos

theorem toRat_lt_midpoint (n : Nat) : toRat n < midpoint n := by
  have := toRat_strictMono (Nat.lt_succ_self n)
  unfold midpoint
  linarith

theorem midpoint_lt_toRat (n : Nat) : midpoint n < toRat (n + 1) := by
  have := toRat_strictMono (Nat.lt_succ_self n)
  unfold midpoint
  linarith

theorem RoundsAbove.midpoint_le {n : Nat} {q : ℚ} (h : RoundsAbove n q) : midpoint n ≤ q := by
  rcases h with h | ⟨h, -⟩
  · exact h.le
  · exact h.le

theorem RoundsAbove.mono {n : Nat} {p q : ℚ} (hpq : p ≤ q) (h : RoundsAbove n p) :
    RoundsAbove n q := by
  rcases h with h | ⟨h, hn⟩
  · exact .inl (h.trans_le hpq)
  · rcases hpq.lt_or_eq with hlt | rfl
    · exact .inl (h.trans_lt hlt)
    · exact .inr ⟨h, hn⟩

theorem lt_nearest_iff_roundsAbove {num den n : Nat} (hd : 0 < den) (hn : n < infinityOrdinal) :
    n < nearest num den ↔ RoundsAbove n (num / den) := by
  have hd' : (0 : ℚ) < den := by exact_mod_cast hd
  have hu := unitsOfOne_pos
  have hmid : midpoint n = ((units n + units (n + 1)) * den : Nat) / (2 * unitsOfOne * den) := by
    unfold midpoint toRat
    push_cast
    field_simp
  have hq : (num / den : ℚ) = (2 * (num * unitsOfOne) : Nat) / (2 * unitsOfOne * den) := by
    push_cast
    field_simp
  have hpos : (0 : ℚ) < 2 * unitsOfOne * den := mul_pos (mul_pos two_pos hu) hd'
  rw [lt_nearest_iff hd hn, RoundsAbove, hmid, hq, div_lt_div_iff_of_pos_right hpos,
    div_left_inj' hpos.ne', Nat.cast_lt, Nat.cast_inj]

theorem nearest_le_infinityOrdinal (num den : Nat) : nearest num den ≤ infinityOrdinal := by
  unfold nearest
  exact Nat.min_le_right _ _

/-- The ordinal of the magnitude that a number rounds to, by its thresholds. -/
structure Rounds (q : ℚ) (n : Nat) : Prop where
  le_infinityOrdinal : n ≤ infinityOrdinal
  lt_iff : ∀ m < infinityOrdinal, m < n ↔ RoundsAbove m q

theorem rounds_nearest {num den : Nat} (hd : 0 < den) : Rounds (num / den) (nearest num den) :=
  ⟨nearest_le_infinityOrdinal num den, fun _ => lt_nearest_iff_roundsAbove hd⟩

theorem Rounds.mono {p q : ℚ} {n m : Nat} (hp : Rounds p n) (hq : Rounds q m) (h : p ≤ q) :
    n ≤ m := by
  by_contra hlt
  have hm : m < infinityOrdinal := by
    have := hp.le_infinityOrdinal
    omega
  have habove := (hp.lt_iff m hm).mp (by omega)
  have := (hq.lt_iff m hm).mpr (habove.mono h)
  omega

theorem Rounds.unique {q : ℚ} {n m : Nat} (hn : Rounds q n) (hm : Rounds q m) : n = m :=
  Nat.le_antisymm (hn.mono hm le_rfl) (hm.mono hn le_rfl)

theorem rounds_toRat {n : Nat} (h : n ≤ infinityOrdinal) : Rounds (toRat n) n := by
  refine ⟨h, ?_⟩
  intro m _
  constructor
  · intro hlt
    left
    exact (midpoint_lt_toRat m).trans_le (toRat_strictMono.monotone hlt)
  · intro habove
    by_contra hge
    have hle : toRat n ≤ toRat m := toRat_strictMono.monotone (by omega)
    have hlt := toRat_lt_midpoint m
    have hmid := habove.midpoint_le
    linarith

theorem midpoint_le_midpoint {n m : Nat} (h : n ≤ m) : midpoint n ≤ midpoint m := by
  have hn := toRat_strictMono.monotone h
  have hs := toRat_strictMono.monotone (Nat.succ_le_succ h)
  unfold midpoint
  linarith

theorem rounds_zero {q : ℚ} (h : q < midpoint 0) : Rounds q 0 := by
  refine ⟨Nat.zero_le _, ?_⟩
  intro m _
  constructor
  · intro hm
    exact absurd hm (Nat.not_lt_zero m)
  · intro habove
    have hle := midpoint_le_midpoint (Nat.zero_le m)
    have hmid := habove.midpoint_le
    linarith

theorem rounds_infinityOrdinal {q : ℚ} (h : toRat infinityOrdinal ≤ q) :
    Rounds q infinityOrdinal := by
  refine ⟨le_rfl, ?_⟩
  intro m hm
  have hlt := midpoint_lt_toRat m
  have hle := toRat_strictMono.monotone (show m + 1 ≤ infinityOrdinal from hm)
  constructor
  · intro _
    left
    linarith
  · intro _
    exact hm

end DecimalComma.Double
