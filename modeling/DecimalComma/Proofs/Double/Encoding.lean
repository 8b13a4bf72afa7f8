import DecimalComma.Double.Basic
import Mathlib.Tactic

/-! Encodings as sign and ordinal, in both directions. The primitive conversions keep every encoding
that is not a NaN, so a number is determined by its sign and its ordinal. -/
namespace DecimalComma.Double
open Float.Model Float.Model.UnpackedFloat

theorem binadeSize_eq : binadeSize = 2 ^ 52 := by decide

theorem signBit_eq : signBit = 2 ^ 63 := by decide

theorem infinityOrdinal_eq : infinityOrdinal = 2047 * 2 ^ 52 := by decide

variable {b : BitVec Format.binary64.numBits}

theorem toBitVec_ofBitVec (s : BitVec 1) : (Sign.ofBitVec s).toBitVec = s := by
  unfold Sign.ofBitVec
  split_ifs with h
  · exact h.symm
  · show 1#1 = s
    bv_omega

theorem packComponents_fields {x : BitVec 11} {m : BitVec 52} (hx : unpackExponent b = x)
    (hm : unpackMantissa b = m) :
    packComponents Format.binary64 (Sign.ofBitVec (unpackSign b)) x m = b := by
  rw [← hx, ← hm]
  unfold packComponents unpackSign unpackExponent unpackMantissa
  rw [toBitVec_ofBitVec]
  apply BitVec.eq_of_getLsbD_eq
  intro i hi
  simp only [BitVec.getLsbD_append, BitVec.getLsbD_cast, BitVec.getLsbD_extractLsb]
  grind

theorem log2_fraction_lt (m : BitVec 52) (hm : m ≠ 0#52) : m.toNat.log2 < 52 := by
  apply (Nat.log2_lt _).mpr m.isLt
  intro h
  exact hm (BitVec.eq_of_toNat_eq h)

theorem toNat_implicit (m : BitVec 52) : (1#1 ++ m).toNat = 2 ^ 52 + m.toNat := by
  have h : (1#1 ++ m).toNat = 2 ^ 52 ||| m.toNat := by rw [BitVec.toNat_append]; rfl
  rw [h, Nat.or_comm, Nat.or_two_pow_eq_add_of_lt m.isLt, Nat.add_comm]

theorem log2_implicit (m : BitVec 52) : (1#1 ++ m).toNat.log2 = 52 := by
  have hm := m.isLt
  rw [toNat_implicit, Nat.log2_eq_iff (by omega)]
  omega

theorem pack_subnormal (s : Sign) {m : BitVec 52} (hm : m ≠ 0#52) {e : Int} (he : e = -1074)
    (hp : 0 < m.toNat) :
    pack Format.binary64 (.finite s m.toNat e hp) = packComponents Format.binary64 s 0#11 m := by
  have hb : (e + Format.binary64.exponentBias + (52 : Nat)).toNat = 1 := by
    rw [he]
    rfl
  have hl : ¬ m.toNat.log2 + 1 = Format.binary64.mantissaBits := by
    have := log2_fraction_lt m hm
    show ¬ m.toNat.log2 + 1 = 53
    omega
  unfold UnpackedFloat.pack
  dsimp only
  rw [hb, if_neg (by decide), if_neg hl, BitVec.ofNat_toNat, BitVec.setWidth_eq]

theorem pack_normal (s : Sign) {x : BitVec 11} (hx : x ≠ -1#11) (m : BitVec 52) {e : Int}
    (he : e = x.toNat - 1075) (hp : 0 < (1#1 ++ m).toNat) :
    pack Format.binary64 (.finite s (1#1 ++ m).toNat e hp) =
      packComponents Format.binary64 s x m := by
  have hb : (e + Format.binary64.exponentBias + (52 : Nat)).toNat = x.toNat := by
    rw [he]
    show ((x.toNat : Int) - 1075 + (1023 : Nat) + (52 : Nat)).toNat = x.toNat
    omega
  have hi : ¬ 2 ^ 11 ≤ x.toNat + 1 := by
    intro h
    apply hx
    apply BitVec.eq_of_toNat_eq
    have := x.isLt
    show x.toNat = 2047
    omega
  have hf : BitVec.ofNat 52 (1#1 ++ m).toNat = m := by
    apply BitVec.eq_of_toNat_eq
    rw [BitVec.toNat_ofNat, toNat_implicit]
    have := m.isLt
    omega
  unfold UnpackedFloat.pack
  dsimp only
  rw [hb, if_neg hi, if_pos (by rw [log2_implicit]; rfl), BitVec.ofNat_toNat, BitVec.setWidth_eq,
    hf]

/-- A valid encoding survives being unpacked and packed. -/
theorem pack_unpack (h : Format.binary64.Valid b) :
    UnpackedFloat.pack Format.binary64 (UnpackedFloat.unpack Format.binary64 b) = b := by
  unfold UnpackedFloat.unpack
  dsimp only
  by_cases hx : unpackExponent b = -1#11
  · rw [if_pos hx]
    by_cases hm : unpackMantissa b = 0#52
    · rw [if_pos hm]
      exact packComponents_fields hx hm
    · rw [if_neg hm]
      exact (h.eq_packedNaN hx hm).symm
  rw [if_neg hx]
  by_cases hz : unpackExponent b = 0#11
  · rw [if_pos hz]
    by_cases hm : unpackMantissa b = 0#52
    · rw [dif_pos hm]
      exact packComponents_fields hz hm
    · rw [dif_neg hm, pack_subnormal _ hm (by rw [hz]; rfl)]
      exact packComponents_fields hz rfl
  · rw [if_neg hz, pack_normal _ hx _ (by rfl)]
    exact packComponents_fields rfl rfl

theorem valid_of_le (h : b.toNat % signBit ≤ infinityOrdinal) :
    Format.binary64.Valid b := by
  constructor
  intro hx hm
  have hx' : b.toNat / 2 ^ 52 % 2 ^ 11 = 2047 := by
    have := congrArg BitVec.toNat hx
    simpa [unpackExponent, Nat.shiftRight_eq_div_pow] using this
  have hm' : b.toNat % 2 ^ 52 ≠ 0 := by
    intro h0
    apply hm
    apply BitVec.eq_of_toNat_eq
    simpa [unpackMantissa] using h0
  rw [signBit_eq, infinityOrdinal_eq] at h
  omega

theorem model_ext {x y : Float.Model} (h : x.toBits = y.toBits) : x = y := by
  cases x
  cases y
  cases h
  rfl

theorem toBits_ofBits_of_valid {b : UInt64} (h : Format.binary64.Valid b.toBitVec) :
    (Float.Model.ofBits b).toBits = b := by
  have hp : UInt64.ofBitVec (UnpackedFloat.pack Format.binary64
      (UnpackedFloat.unpack Format.binary64 b.toBitVec)) = b := by
    rw [pack_unpack h]
  exact hp

theorem ofBits_toBits (x : Float) : Float.ofBits x.toBits = x :=
  congrArg Float.ofModel (model_ext (toBits_ofBits_of_valid x.toModel.valid))

theorem toBits_ofBits {b : UInt64} (h : b.toNat % signBit ≤ infinityOrdinal) :
    (Float.ofBits b).toBits = b := toBits_ofBits_of_valid (valid_of_le h)

/-- The encoding of a sign and an ordinal. -/
def code (negative : Bool) (n : Nat) : Nat := if negative then signBit + n else n

theorem code_mod (negative : Bool) {n : Nat} (h : n ≤ infinityOrdinal) :
    code negative n % signBit = n := by
  have hs := signBit_eq
  have hi := infinityOrdinal_eq
  have hn : n % signBit = n := Nat.mod_eq_of_lt (by omega)
  cases negative with
  | false => exact hn
  | true => exact (Nat.add_mod_left signBit n).trans hn

theorem code_lt (negative : Bool) {n : Nat} (h : n ≤ infinityOrdinal) :
    code negative n < 2 ^ 64 := by
  have hs := signBit_eq
  have hi := infinityOrdinal_eq
  unfold code
  split_ifs <;> omega

theorem toNat_ofOrdinal (negative : Bool) {n : Nat} (h : n ≤ infinityOrdinal) :
    (ofOrdinal negative n).toBits.toNat = code negative n := by
  have hb : (UInt64.ofNat (code negative n)).toNat = code negative n := by
    rw [UInt64.toNat_ofNat']
    exact Nat.mod_eq_of_lt (code_lt negative h)
  show (Float.ofBits (UInt64.ofNat (code negative n))).toBits.toNat = code negative n
  rw [toBits_ofBits, hb]
  rw [hb, code_mod negative h]
  exact h

theorem ordinal_ofOrdinal (negative : Bool) {n : Nat} (h : n ≤ infinityOrdinal) :
    ordinal (ofOrdinal negative n) = n := by
  unfold ordinal
  rw [toNat_ofOrdinal negative h, code_mod negative h]

theorem isNegative_ofOrdinal (negative : Bool) {n : Nat} (h : n ≤ infinityOrdinal) :
    isNegative (ofOrdinal negative n) = negative := by
  have hs := signBit_eq
  have hi := infinityOrdinal_eq
  unfold isNegative
  rw [toNat_ofOrdinal negative h, code]
  cases negative with
  | false => simp only [Bool.false_eq_true, if_false, decide_eq_false_iff_not]; omega
  | true => simp

/-- A value is determined by its sign and its ordinal. -/
theorem ofOrdinal_ordinal (x : Float) : ofOrdinal (isNegative x) (ordinal x) = x := by
  have hx := x.toBits.toNat_lt
  have hb : code (isNegative x) (ordinal x) = x.toBits.toNat := by
    unfold code isNegative ordinal
    simp only [decide_eq_true_eq]
    rw [signBit_eq]
    split_ifs <;> omega
  show Float.ofBits (UInt64.ofNat (code (isNegative x) (ordinal x))) = x
  rw [hb, UInt64.ofNat_toNat, ofBits_toBits]

theorem eq_iff {x y : Float} : x = y ↔ ordinal x = ordinal y ∧ isNegative x = isNegative y := by
  constructor
  · intro h
    exact ⟨congrArg _ h, congrArg _ h⟩
  · intro h
    rw [← ofOrdinal_ordinal x, ← ofOrdinal_ordinal y, h.1, h.2]

end DecimalComma.Double
