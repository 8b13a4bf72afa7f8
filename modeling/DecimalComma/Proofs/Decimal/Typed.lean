import DecimalComma.Proofs.Decimal.Canonical
import DecimalComma.Proofs.Double.Power
import DecimalComma.Proofs.Token.Value

/-! Numbers as they would be typed. With a point for its comma the text of a number is read as the
number, but for the sign of a zero, which is not written. So the text tells numbers apart. -/
namespace DecimalComma

namespace Double

/-- The number, a zero without its sign. -/
def unsignZero (x : Float) : Float := if isZero x then ofOrdinal false 0 else x

variable {x y : Float}

theorem unsignZero_of_isZero (h : isZero x) : unsignZero x = ofOrdinal false 0 := if_pos h

theorem unsignZero_of_not_isZero (h : ¬ isZero x) : unsignZero x = x := if_neg h

theorem ordinal_unsignZero (x : Float) : ordinal (unsignZero x) = ordinal x := by
  by_cases h : isZero x
  · rw [unsignZero_of_isZero h, ordinal_ofOrdinal false (Nat.zero_le _), isZero_iff.mp h]
  · rw [unsignZero_of_not_isZero h]

theorem isNegative_unsignZero (x : Float) :
    isNegative (unsignZero x) = (isNegative x && !isZero x) := by
  by_cases h : isZero x
  · rw [unsignZero_of_isZero h, isNegative_ofOrdinal false (Nat.zero_le _), h]
    simp
  · rw [unsignZero_of_not_isZero h]
    simp [h]

theorem same_iff : same x y ↔ ¬ isNaN x ∧ ¬ isNaN y ∧ ordinal x = ordinal y ∧
    (isZero x ∨ isNegative x = isNegative y) := by
  simp [same, and_assoc]

theorem unsignZero_inj : unsignZero x = unsignZero y ↔
    ordinal x = ordinal y ∧ (isZero x ∨ isNegative x = isNegative y) := by
  rw [eq_iff, ordinal_unsignZero, ordinal_unsignZero, isNegative_unsignZero, isNegative_unsignZero]
  apply and_congr_right
  intro ho
  have hz : isZero x = isZero y := by rw [isZero, isZero, ho]
  rw [hz]
  cases isZero y <;> simp

/-- There is one NaN, so the zeros are the only numbers that are equal but not the same. -/
theorem unsignZero_inj_iff_same :
    unsignZero x = unsignZero y ↔ same x y ∨ isNaN x ∧ isNaN y := by
  rw [unsignZero_inj, same_iff]
  constructor
  · intro h
    have hnan : isNaN x ↔ isNaN y := by rw [isNaN_iff, isNaN_iff, h.1]
    by_cases hx : isNaN x
    · exact .inr ⟨hx, hnan.mp hx⟩
    · exact .inl ⟨hx, hx ∘ hnan.mpr, h⟩
  · intro h
    obtain ⟨-, -, h⟩ | ⟨hx, hy⟩ := h
    · exact h
    · rw [eq_nan_of_isNaN hx, eq_nan_of_isNaN hy]
      exact ⟨rfl, .inr rfl⟩

end Double

namespace Layout
open Double FloatText Token
open Numeral (Sign decide_signOf signOf)

variable {l : Layout} {x y : Float}

/-- A finite number is what its text in a layout with a point is read as. -/
theorem plain_render (hm : l.mark = '.') (h : isFinite x) : Plain (l.render x).toList x := by
  obtain ⟨n, hn⟩ :=
    Numeral.exists_writes hm (signOf (isNegative x)) (Decimal.shortest (ordinal x))
  have hplain := Plain.numeral (hn.wellFormed.spells l) hn.wellFormed.hasDigits
  rwa [hn.spell, Numeral.toDouble_of_toRat h hn.sign hn.toRat, ← toList_render h] at hplain

theorem toList_render_of_not_isFinite (h : ¬ isFinite x) : (l.render x).toList =
    if isNaN x then l.notANumber.toList
    else (signOf (isNegative x)).spell ++ l.infinity.toList := by
  unfold render
  rw [if_neg h, apply_ite String.toList, String.toList_append]
  cases isNegative x <;> rfl

theorem plain_word {w : List Char} {k : Nat} (hw : (w, k) ∈ words) (negative : Bool) :
    Plain ((signOf negative).spell ++ w) (ofOrdinal negative k) := by
  have hsmall : ∀ p ∈ words, p.1.map Char.toLower = p.1 := by decide
  have h := Plain.word hw (hsmall _ hw) (signOf negative)
  rwa [decide_signOf] at h

/-- Any number is what its text in the log is read as. -/
theorem plain_render_plain (x : Float) : Plain (plain.render x).toList x := by
  by_cases h : isFinite x
  · exact plain_render rfl h
  rw [toList_render_of_not_isFinite h]
  by_cases hn : isNaN x
  · have hword : ("nan".toList, ordinal nan) ∈ words := by simp [words]
    have hsign : isNegative nan = false := by decide +kernel
    have hplain := plain_word hword (isNegative nan)
    rw [ofOrdinal_ordinal, hsign] at hplain
    rw [if_pos hn, eq_nan_of_isNaN hn]
    exact hplain
  · have hi : ordinal x = infinityOrdinal := by
      rw [isFinite_iff_not, not_and, not_not] at h
      exact isInfinite_iff.mp (h hn)
    have hword : ("inf".toList, ordinal x) ∈ words := by simp [words, hi]
    have hplain := plain_word hword (isNegative x)
    rw [ofOrdinal_ordinal] at hplain
    rw [if_neg hn]
    exact hplain

theorem pointed_write (d : Decimal) : pointed (typed.write d) = plain.write d := by
  apply map_write
  intro c hc
  apply if_neg
  intro hmark
  subst hmark
  revert hc
  decide

theorem pointed_sign (s : Sign) : pointed s.spell = s.spell := by cases s <;> decide

theorem pointed_render (x : Float) : pointed (typed.render x).toList = (plain.render x).toList := by
  by_cases h : isFinite x
  · rw [toList_render h, toList_render h, pointed_append, pointed_sign, pointed_write]
  · have hn : pointed typed.notANumber.toList = plain.notANumber.toList := by decide
    have hi : pointed typed.infinity.toList = plain.infinity.toList := by decide
    rw [toList_render_of_not_isFinite h, toList_render_of_not_isFinite h, apply_ite pointed,
      pointed_append, pointed_sign, hn, hi]

theorem toRat_ordinal_of_isInteger (h : isInteger x = true) :
    Double.toRat (ordinal x) = integerPart x := by
  have hu := unitsOfOne_pos
  have hm : units (ordinal x) % unitsOfOne = 0 := by simpa [isInteger] using h
  have hd : integerPart x * unitsOfOne = units (ordinal x) :=
    Nat.div_mul_cancel (Nat.dvd_of_mod_eq_zero hm)
  rw [Double.toRat, div_eq_iff hu.ne', ← hd, Nat.cast_mul]

theorem isZero_iff_integerPart (h : isInteger x) : isZero x ↔ integerPart x = 0 := by
  rw [isZero_iff, ← toRat_strictMono.injective.eq_iff, toRat_zero, toRat_ordinal_of_isInteger h,
    Nat.cast_eq_zero]

theorem toList_renderLiteral_of_isInteger (hf : isFinite x) (hi : isInteger x) :
    (renderLiteral x).toList =
      (signOf (isNegative (unsignZero x))).spell ++ Nat.toDigits 10 (integerPart x) := by
  have hz := isZero_iff_integerPart hi
  unfold renderLiteral
  rw [hf, hi, isNegative_unsignZero, Bool.and_true, if_pos rfl]
  dsimp only
  rw [String.toList_append, Nat.toList_repr]
  by_cases h : isZero x
  · simp [h, hz.mp h, signOf, Sign.spell]
  · cases isNegative x <;> simp [h, hz.not.mp h, signOf, Sign.spell]

theorem renderLiteral_of_not (h : ¬ (isFinite x ∧ isInteger x)) :
    renderLiteral x = typed.render x := by
  unfold renderLiteral
  rw [if_neg]
  simpa using h

theorem ordinal_toDigits (hf : isFinite x) (hi : isInteger x) :
    (Decimal.ofParts (Nat.toDigits 10 (integerPart x)) [] 0).ordinal = ordinal x := by
  apply Decimal.ordinal_of_toRat (isFinite_iff.mp hf).le
  rw [toRat_ofParts, toRat_ordinal_of_isInteger hi, Nat.ofDigitChars_ten_toDigits]
  simp

theorem plain_renderLiteral_of_isInteger (hf : isFinite x) (hi : isInteger x) :
    Plain (pointed (renderLiteral x).toList) (unsignZero x) := by
  have hd := Decimal.isDigits_toDigits (integerPart x)
  let n : Numeral :=
    ⟨signOf (isNegative (unsignZero x)), Nat.toDigits 10 (integerPart x), none, none⟩
  have hn : n.WellFormed := ⟨hd, by simp [n]⟩
  have hspell : n.spell plain = pointed (renderLiteral x).toList := by
    rw [toList_renderLiteral_of_isInteger hf hi, pointed_append, pointed_sign, hd.pointed_eq]
    exact congrArg _ (List.append_nil _)
  have hvalue : n.toDouble = unsignZero x := by
    have ho : n.decimal.ordinal = ordinal (unsignZero x) :=
      (ordinal_toDigits hf hi).trans (ordinal_unsignZero x).symm
    rw [Numeral.toDouble, Numeral.isNegative, decide_signOf, Decimal.toDouble, ho,
      ofOrdinal_ordinal]
  rw [← hspell, ← hvalue]
  exact .numeral (hn.spells plain) hn.hasDigits

/-- A number is what its text as it would be typed is read as, but for the sign of a zero. -/
theorem plain_renderLiteral (x : Float) :
    Plain (pointed (renderLiteral x).toList) (unsignZero x) := by
  by_cases h : isFinite x ∧ isInteger x
  · exact plain_renderLiteral_of_isInteger h.1 h.2
  · have hz : ¬ isZero x := fun hz => h ⟨isFinite_of_isZero hz, isInteger_of_isZero hz⟩
    rw [renderLiteral_of_not h, pointed_render, unsignZero_of_not_isZero hz]
    exact plain_render_plain x

/-- The texts of numbers are made of letters, digits, signs and marks. -/
theorem isAlphanum_or_of_mem_renderLiteral {c : Char} (hc : c ∈ (renderLiteral x).toList) :
    c.isAlphanum ∨ c ∈ ['+', '-', '.', ','] := by
  by_cases hmark : c = decimalMark
  · rw [hmark]
    exact .inr (by simp [decimalMark])
  · have hmem : c ∈ pointed (renderLiteral x).toList := List.mem_map.mpr ⟨c, hc, if_neg hmark⟩
    obtain h | h := (plain_renderLiteral x).isAlphanum_or hmem
    · exact .inl h
    · exact .inr (List.mem_append_left [','] h)

theorem renderLiteral_of_isZero (h : isZero x) : renderLiteral x = "0" := by
  have hi := isInteger_of_isZero h
  rw [← String.toList_inj, toList_renderLiteral_of_isInteger (isFinite_of_isZero h) hi,
    (isZero_iff_integerPart hi).mp h, isNegative_unsignZero, h, Bool.not_true, Bool.and_false]
  rfl

/-- Numbers have the same text iff they are equal or neither is a number. -/
theorem renderLiteral_eq_iff :
    renderLiteral x = renderLiteral y ↔ same x y ∨ isNaN x ∧ isNaN y := by
  rw [← unsignZero_inj_iff_same]
  constructor
  · intro h
    have hx := plain_renderLiteral x
    rw [h] at hx
    exact hx.unique (plain_renderLiteral y)
  · intro h
    have hunsigned (x : Float) : renderLiteral (unsignZero x) = renderLiteral x := by
      by_cases hz : isZero x
      · rw [renderLiteral_of_isZero hz, renderLiteral_of_isZero]
        rwa [isZero, ordinal_unsignZero, ← isZero]
      · rw [unsignZero_of_not_isZero hz]
    rw [← hunsigned x, h, hunsigned]

end Layout
end DecimalComma
