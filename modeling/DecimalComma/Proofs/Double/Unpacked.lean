import DecimalComma.Proofs.Double.Encoding

/-! The numbers as the primitive arithmetic sees them: not a number, infinite, zero or finite, by the
ordinal, with the sign apart. There is one NaN, and a quotient by zero is infinite or this NaN. -/
namespace DecimalComma.Double
open Float.Model Float.Model.UnpackedFloat

/-- The infinities. -/
def isInfinite (x : Float) : Bool := ordinal x = infinityOrdinal

/-- The sign bit as a sign. -/
def sign (negative : Bool) : Sign := if negative then .negative else .positive

variable {x y : Float}

theorem isNaN_iff : isNaN x ↔ infinityOrdinal < ordinal x := decide_eq_true_iff

theorem isInfinite_iff : isInfinite x ↔ ordinal x = infinityOrdinal := decide_eq_true_iff

theorem isFinite_iff : isFinite x ↔ ordinal x < infinityOrdinal := decide_eq_true_iff

theorem isZero_iff : isZero x ↔ ordinal x = 0 := decide_eq_true_iff

theorem isFinite_iff_not : isFinite x ↔ ¬ isNaN x ∧ ¬ isInfinite x := by
  rw [isFinite_iff, isNaN_iff, isInfinite_iff]
  omega

theorem isFinite_of_isZero (h : isZero x) : isFinite x := by
  rw [isFinite_iff, isZero_iff.mp h]
  decide

theorem ordinal_lt (x : Float) : ordinal x < 2 ^ 63 := by
  rw [ordinal, signBit_eq]
  omega

theorem toNat_unpackExponent (x : Float) :
    (@unpackExponent Format.binary64 x.toBits.toBitVec).toNat = ordinal x / 2 ^ 52 := by
  have h : (@unpackExponent Format.binary64 x.toBits.toBitVec).toNat =
      x.toBits.toNat / 2 ^ 52 % 2 ^ 11 := by
    simp [unpackExponent, Nat.shiftRight_eq_div_pow]
  rw [h, ordinal, signBit_eq]
  omega

theorem toNat_unpackMantissa (x : Float) :
    (@unpackMantissa Format.binary64 x.toBits.toBitVec).toNat = ordinal x % 2 ^ 52 := by
  have h : (@unpackMantissa Format.binary64 x.toBits.toBitVec).toNat =
      x.toBits.toNat % 2 ^ 52 := by
    simp [unpackMantissa]
  rw [h, ordinal, signBit_eq]
  omega

theorem ofBitVec_unpackSign (x : Float) :
    Sign.ofBitVec (@unpackSign Format.binary64 x.toBits.toBitVec) = sign (isNegative x) := by
  have hx := x.toBits.toNat_lt
  have h : (@unpackSign Format.binary64 x.toBits.toBitVec).toNat = x.toBits.toNat / 2 ^ 63 := by
    unfold unpackSign
    simp [Nat.shiftRight_eq_div_pow]
    omega
  have hs : @unpackSign Format.binary64 x.toBits.toBitVec = 0#1 ↔ isNegative x = false := by
    rw [← BitVec.toNat_inj, h, isNegative, signBit_eq, decide_eq_false_iff_not]
    show x.toBits.toNat / 2 ^ 63 = 0 ↔ _
    omega
  unfold Sign.ofBitVec sign
  cases hn : isNegative x with
  | false => rw [if_pos (hs.mpr hn)]; rfl
  | true => rw [if_neg (by simp [hs, hn])]; rfl

theorem unpackExponent_eq_top_iff :
    @unpackExponent Format.binary64 x.toBits.toBitVec = -1#11 ↔ infinityOrdinal ≤ ordinal x := by
  rw [← BitVec.toNat_inj, toNat_unpackExponent, infinityOrdinal_eq]
  have hlt := ordinal_lt x
  show ordinal x / 2 ^ 52 = 2047 ↔ _
  omega

theorem unpackMantissa_eq_zero_iff :
    @unpackMantissa Format.binary64 x.toBits.toBitVec = 0#52 ↔ ordinal x % 2 ^ 52 = 0 := by
  rw [← BitVec.toNat_inj, toNat_unpackMantissa]
  rfl

theorem unpackExponent_eq_zero_iff :
    @unpackExponent Format.binary64 x.toBits.toBitVec = 0#11 ↔ ordinal x < 2 ^ 52 := by
  rw [← BitVec.toNat_inj, toNat_unpackExponent]
  show ordinal x / 2 ^ 52 = 0 ↔ _
  omega

theorem unpack_of_isNaN (h : isNaN x) : x.toModel.unpack = .notANumber := by
  have hx := isNaN_iff.mp h
  have hlt := ordinal_lt x
  have hi := infinityOrdinal_eq
  show UnpackedFloat.unpack Format.binary64 x.toBits.toBitVec = _
  unfold UnpackedFloat.unpack
  dsimp only
  rw [if_pos (unpackExponent_eq_top_iff.mpr hx.le), if_neg]
  exact fun hm => absurd (unpackMantissa_eq_zero_iff.mp hm) (by omega)

theorem unpack_of_isInfinite (h : isInfinite x) :
    x.toModel.unpack = .infinity (sign (isNegative x)) := by
  have hx := isInfinite_iff.mp h
  have hi := infinityOrdinal_eq
  show UnpackedFloat.unpack Format.binary64 x.toBits.toBitVec = _
  unfold UnpackedFloat.unpack
  dsimp only
  rw [if_pos (unpackExponent_eq_top_iff.mpr hx.ge), if_pos, ofBitVec_unpackSign]
  exact unpackMantissa_eq_zero_iff.mpr (by omega)

theorem unpack_of_isZero (h : isZero x) : x.toModel.unpack = .zero (sign (isNegative x)) := by
  have hx := isZero_iff.mp h
  have hi := infinityOrdinal_eq
  show UnpackedFloat.unpack Format.binary64 x.toBits.toBitVec = _
  unfold UnpackedFloat.unpack
  dsimp only
  rw [if_neg, if_pos (unpackExponent_eq_zero_iff.mpr (by omega)), dif_pos, ofBitVec_unpackSign]
  · exact unpackMantissa_eq_zero_iff.mpr (by omega)
  · exact fun ht => absurd (unpackExponent_eq_top_iff.mp ht) (by omega)

theorem unpack_of_isFinite (h : isFinite x) (hz : ¬ isZero x) :
    ∃ (m : Nat) (e : Int) (hm : 0 < m),
      x.toModel.unpack = .finite (sign (isNegative x)) m e hm := by
  have hx := isFinite_iff.mp h
  have hne : ordinal x ≠ 0 := fun h0 => hz (isZero_iff.mpr h0)
  show ∃ (m : Nat) (e : Int) (hm : 0 < m),
    UnpackedFloat.unpack Format.binary64 x.toBits.toBitVec = .finite _ m e hm
  unfold UnpackedFloat.unpack
  dsimp only
  rw [if_neg fun ht => absurd (unpackExponent_eq_top_iff.mp ht) (by omega), ofBitVec_unpackSign]
  by_cases he : @unpackExponent Format.binary64 x.toBits.toBitVec = 0#11
  · have hlt := unpackExponent_eq_zero_iff.mp he
    have hm : ¬ @unpackMantissa Format.binary64 x.toBits.toBitVec = 0#52 := by
      rw [unpackMantissa_eq_zero_iff]
      omega
    have hpos : 0 < (@unpackMantissa Format.binary64 x.toBits.toBitVec).toNat := by
      rw [toNat_unpackMantissa]
      omega
    rw [if_pos he, dif_neg hm]
    exact ⟨_, _, hpos, rfl⟩
  · have hpos : 0 < (1#1 ++ @unpackMantissa Format.binary64 x.toBits.toBitVec).toNat := by
      rw [toNat_implicit]
      omega
    rw [if_neg he]
    exact ⟨_, _, hpos, rfl⟩

theorem ofModel_notANumber : Float.ofModel (pack .notANumber) = nan := by
  have h : (pack .notANumber).toBits = nan.toBits := by decide
  exact congrArg Float.ofModel (model_ext h)

theorem ofModel_infinity (negative : Bool) :
    Float.ofModel (pack (.infinity (sign negative))) = infinity negative := by
  have h : (pack (.infinity (sign negative))).toBits = (infinity negative).toBits := by
    cases negative <;> decide
  exact congrArg Float.ofModel (model_ext h)

/-- There is one NaN. -/
theorem eq_nan_of_isNaN (h : isNaN x) : x = nan := by
  have hx := isNaN_iff.mp h
  have hlt := ordinal_lt x
  have hi := infinityOrdinal_eq
  have hm : ¬ @unpackMantissa Format.binary64 x.toBits.toBitVec = 0#52 := by
    rw [unpackMantissa_eq_zero_iff]
    omega
  have hbits : x.toBits.toBitVec = packedNaN Format.binary64 :=
    x.toModel.valid.eq_packedNaN (unpackExponent_eq_top_iff.mpr hx.le) hm
  have hnan : x.toModel = pack .notANumber := model_ext (congrArg UInt64.ofBitVec hbits)
  exact (congrArg Float.ofModel hnan).trans ofModel_notANumber

theorem sign_div_sign (a b : Bool) : sign a / sign b = sign (a != b) := by
  cases a <;> cases b <;> rfl

theorem div_of_isZero (h : isZero y) :
    x / y = if isZero x || isNaN x then nan else infinity (isNegative x != isNegative y) := by
  show Float.ofModel (pack (UnpackedFloat.div Format.binary64 x.toModel.unpack y.toModel.unpack)) = _
  rw [unpack_of_isZero h]
  by_cases hn : isNaN x
  · rw [unpack_of_isNaN hn, if_pos (by simp [hn])]
    exact ofModel_notANumber
  by_cases hz : isZero x
  · rw [unpack_of_isZero hz, if_pos (by simp [hz])]
    exact ofModel_notANumber
  rw [if_neg (by simp [hn, hz]), ← ofModel_infinity, ← sign_div_sign]
  by_cases hi : isInfinite x
  · rw [unpack_of_isInfinite hi]
    rfl
  · obtain ⟨m, e, hm, hu⟩ := unpack_of_isFinite (isFinite_iff_not.mpr ⟨hn, hi⟩) hz
    rw [hu]
    rfl

end DecimalComma.Double
