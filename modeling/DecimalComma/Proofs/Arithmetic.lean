import DecimalComma.Expr.Value
import DecimalComma.Proofs.Double.Power

/-! Arithmetic without failure. The partial forms report exactly the operands that have no answer, and
with the reports turned into infinities and NaNs the value of an expression is the recursion with the
total operations of IEEE 754 and the exponentiation of ECMAScript. -/
namespace DecimalComma
open Double

namespace Arithmetic

variable {x y : Float}

theorem quotient?_eq_none_iff : quotient? x y = none ↔ isZero y := by
  unfold quotient?
  split_ifs with h <;> simp [h]

theorem eq_div_of_quotient? {r : Float} (h : quotient? x y = some r) : r = x / y := by
  unfold quotient? at h
  split_ifs at h
  exact (Option.some.inj h).symm

theorem divide_eq_div (x y : Float) : divide x y = x / y := by
  unfold divide
  cases h : quotient? x y with
  | none =>
    rw [div_of_isZero (quotient?_eq_none_iff.mp h)]
    rfl
  | some r => exact eq_div_of_quotient? h

theorem isInfinite_pow_of_isZero (hx : isZero x) (hy : isFinite y) :
    ¬ isFinite (pow x y) ↔ isNegative y ∧ ¬ isZero y := by
  have hpos : 0 < infinityOrdinal := by decide
  by_cases hzy : isZero y
  · have hone : isFinite one := by
      rw [isFinite_iff, ordinal_one]
      decide
    rw [pow_of_isZero hzy]
    exact iff_of_false (not_not.mpr hone) fun h => h.2 hzy
  · have hle : (if isNegative y then infinityOrdinal else 0) ≤ infinityOrdinal := by
      split_ifs <;> omega
    rw [pow_of_isZero_left hx hzy (isFinite_iff_not.mp hy).1, isFinite_iff,
      ordinal_ofOrdinal _ hle]
    cases isNegative y <;> simp [hzy, hpos]

/-- A power of finite operands that is not finite lies outside the domain if it is not a number or the
base is zero. -/
theorem checkedPower_eq (x y : Float) :
    checkedPower x y =
      if isFinite x ∧ isFinite y ∧ ¬ isFinite (pow x y) then
        .error (if isNaN (pow x y) ∨ isZero x then .domain else .overflow)
      else .ok (pow x y) := by
  unfold checkedPower
  dsimp only
  by_cases h : isFinite x ∧ isFinite y ∧ ¬ isFinite (pow x y)
  · rw [if_pos h, if_neg (by simp [h])]
    by_cases hd : isNaN (pow x y) ∨ isZero x
    · rw [if_pos hd, if_pos (by simpa using hd)]
    · rw [if_neg hd, if_neg (by simpa using hd)]
  · rw [if_neg h, if_pos]
    by_contra hok
    exact h (by simpa [and_assoc] using hok)

theorem checkedPower_eq_error_domain_iff :
    checkedPower x y = .error .domain ↔
      isFinite x ∧ isFinite y ∧ (isNaN (pow x y) ∨ isZero x ∧ isNegative y ∧ ¬ isZero y) := by
  have hreport : checkedPower x y = .error .domain ↔
      (isFinite x ∧ isFinite y ∧ ¬ isFinite (pow x y)) ∧ (isNaN (pow x y) ∨ isZero x) := by
    rw [checkedPower_eq]
    split_ifs <;> simp_all
  rw [hreport]
  constructor
  · rintro ⟨⟨hx, hy, hf⟩, hn | hz⟩
    · exact ⟨hx, hy, .inl hn⟩
    · exact ⟨hx, hy, .inr ⟨hz, (isInfinite_pow_of_isZero hz hy).mp hf⟩⟩
  · rintro ⟨hx, hy, hn | ⟨hz, hneg⟩⟩
    · exact ⟨⟨hx, hy, fun hf => (isFinite_iff_not.mp hf).1 hn⟩, .inl hn⟩
    · exact ⟨⟨hx, hy, (isInfinite_pow_of_isZero hz hy).mpr hneg⟩, .inr hz⟩

theorem checkedPower_eq_error_overflow_iff :
    checkedPower x y = .error .overflow ↔
      isFinite x ∧ isFinite y ∧ ¬ isZero x ∧ isInfinite (pow x y) := by
  have hreport : checkedPower x y = .error .overflow ↔
      (isFinite x ∧ isFinite y ∧ ¬ isFinite (pow x y)) ∧ ¬ (isNaN (pow x y) ∨ isZero x) := by
    rw [checkedPower_eq]
    split_ifs <;> simp_all
  rw [hreport]
  constructor
  · rintro ⟨⟨hx, hy, hf⟩, hd⟩
    obtain ⟨hn, hz⟩ := not_or.mp hd
    exact ⟨hx, hy, hz, not_not.mp fun hi => hf (isFinite_iff_not.mpr ⟨hn, hi⟩)⟩
  · rintro ⟨hx, hy, hz, hi⟩
    have hn : ¬ isNaN (pow x y) := by
      rw [isNaN_iff, isInfinite_iff.mp hi]
      exact lt_irrefl _
    exact ⟨⟨hx, hy, fun hf => (isFinite_iff_not.mp hf).2 hi⟩, not_or.mpr ⟨hn, hz⟩⟩

theorem eq_pow_of_checkedPower {r : Float} (h : checkedPower x y = .ok r) : r = pow x y := by
  rw [checkedPower_eq] at h
  split_ifs at h
  exact (Except.ok.inj h).symm

/-- Away from the operands that the conventions disagree on, the reports are turned into the power
itself. -/
theorem power_eq_pow (hy : ¬ isNaN y) (h : ¬ (ordinal x = oneOrdinal ∧ isInfinite y)) :
    power x y = pow x y := by
  rw [isInfinite_iff] at h
  unfold power
  rw [if_neg (by simpa [hy] using h)]
  cases hp : checkedPower x y with
  | ok r => exact eq_pow_of_checkedPower hp
  | error fault =>
    cases fault with
    | domain =>
      obtain ⟨-, hfy, hd⟩ := checkedPower_eq_error_domain_iff.mp hp
      by_cases hzx : isZero x
      · have hf : ¬ isFinite (pow x y) := by
          rcases hd with hn | ⟨-, hneg⟩
          · exact fun hf => (isFinite_iff_not.mp hf).1 hn
          · exact (isInfinite_pow_of_isZero hzx hfy).mpr hneg
        obtain ⟨hneg, hzy⟩ := (isInfinite_pow_of_isZero hzx hfy).mp hf
        show (if isZero x then infinity _ else nan) = _
        rw [if_pos hzx, pow_of_isZero_left hzx hzy hy, if_pos hneg]
        rfl
      · show (if isZero x then infinity _ else nan) = _
        rw [if_neg hzx]
        exact (eq_nan_of_isNaN (hd.resolve_right fun h => hzx h.1)).symm
    | overflow =>
      obtain ⟨-, -, -, hi⟩ := checkedPower_eq_error_overflow_iff.mp hp
      exact (eq_infinity_of_isInfinite_pow hi).symm

theorem power_eq_exponentiate (x y : Float) : power x y = exponentiate x y := by
  by_cases hy : isNaN y
  · unfold power exponentiate
    rw [if_pos (by simp [hy]), if_pos hy]
  by_cases h : ordinal x = oneOrdinal ∧ isInfinite y
  · rw [exponentiate_of_infinite h.1 h.2]
    rw [isInfinite_iff] at h
    unfold power
    rw [if_pos (by simp [h])]
  rw [power_eq_pow hy h]
  by_cases hone : PowerOfOne x y
  · have hiy : ¬ isInfinite y := fun hi => h ⟨hone.1, hi⟩
    have hn := hone.2.resolve_right hiy
    rw [pow_of_powerOfOne hone, exponentiate_of_one hone.1 hn (isFinite_iff_not.mpr ⟨hy, hiy⟩)]
  · exact pow_eq_exponentiate hone

end Arithmetic

/-- The value by total operations alone: those of IEEE 754, and the exponentiation of ECMAScript. -/
def Expr.total : Expr → Float
  | number x => x
  | group e => e.total
  | binary .add l r => l.total + r.total
  | binary .sub l r => l.total - r.total
  | binary .mul l r => l.total * r.total
  | binary .div l r => l.total / r.total
  | binary .pow l r => exponentiate l.total r.total

/-- What the partial operations answer, and where they report: division at the zero divisors, a power
between finite operands where it is not a number, infinite, or a negative power of zero. -/
structure Reports (x y : Float) : Prop where
  noQuotient : Arithmetic.quotient? x y = none ↔ isZero y
  quotient : ∀ r, Arithmetic.quotient? x y = some r → r = x / y
  domain : Arithmetic.checkedPower x y = .error .domain ↔
    isFinite x ∧ isFinite y ∧ (isNaN (pow x y) ∨ isZero x ∧ isNegative y ∧ ¬ isZero y)
  overflow : Arithmetic.checkedPower x y = .error .overflow ↔
    isFinite x ∧ isFinite y ∧ ¬ isZero x ∧ isInfinite (pow x y)
  power : ∀ r, Arithmetic.checkedPower x y = .ok r → r = pow x y

/-- The conventions of IEEE 754 for a zero divisor, and those of C for powers by those of ECMAScript,
from which they differ at a base of one and at minus one under an infinite exponent. -/
structure Conventions (x y : Float) : Prop where
  quotientByZero : isZero y →
    x / y = if isZero x || isNaN x then nan else infinity (isNegative x != isNegative y)
  powerOfOne : PowerOfOne x y → pow x y = one
  power : ¬ PowerOfOne x y → pow x y = exponentiate x y

theorem Expr.value_total (e : Expr) : e.value = e.total := by
  induction e with
  | number x => rfl
  | group e ih => exact ih
  | binary op l r ihl ihr =>
    unfold value total
    rw [ihl, ihr]
    cases op with
    | add => rfl
    | sub => rfl
    | mul => rfl
    | div => exact Arithmetic.divide_eq_div _ _
    | pow => exact Arithmetic.power_eq_exponentiate _ _

/-- No report escapes: an expression over any numbers has the value that the total operations give. -/
theorem Expr.value_eq_total :
    (∀ x y, Reports x y ∧ Conventions x y) ∧ ∀ e : Expr, e.value = e.total := by
  refine ⟨?_, value_total⟩
  intro x y
  refine ⟨?_, div_of_isZero, pow_of_powerOfOne, pow_eq_exponentiate⟩
  exact {
    noQuotient := Arithmetic.quotient?_eq_none_iff
    quotient := fun r h => Arithmetic.eq_div_of_quotient? h
    domain := Arithmetic.checkedPower_eq_error_domain_iff
    overflow := Arithmetic.checkedPower_eq_error_overflow_iff
    power := fun r h => Arithmetic.eq_pow_of_checkedPower h }

end DecimalComma
