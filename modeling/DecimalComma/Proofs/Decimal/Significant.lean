import DecimalComma.Proofs.Decimal.Canonical
import Mathlib.Data.List.DropRight

/-! The significant digits of a number and the place of its point, read off its text: the text is
cut at the power of ten and at the point, and the zeros at both ends of its digits are left out.
These are the digits and the point of the number's decimal without zeros at its end. -/
namespace DecimalComma
open Double (isFinite isZero ordinal)
open Token (IsDigits)

namespace Decimal

variable {ws fs ds : List Char} {d : Decimal}

/-- Digits are those of their number behind the zeros at the start. -/
theorem toDigits_ofDigitChars (hd : ∀ c ∈ ds, c.isDigit) (h : ∃ c ∈ ds, c ≠ '0') :
    Nat.toDigits 10 (Nat.ofDigitChars 10 ds 0) = ds.dropWhile (· = '0') := by
  induction ds with
  | nil => simp at h
  | cons c ds ih =>
    have htail : ∀ a ∈ ds, a.isDigit := fun a ha => hd a (List.mem_cons_of_mem c ha)
    have hnext :
        Nat.ofDigitChars 10 (c :: ds) 0 = Nat.ofDigitChars 10 ds (c.toNat - '0'.toNat) := by
      rw [Nat.ofDigitChars_cons, Nat.mul_zero, Nat.zero_add]
    by_cases hc : c = '0'
    · subst hc
      rw [hnext, List.dropWhile_cons_of_pos (by simp)]
      exact ih htail (by simpa using h)
    · have hdigit := hd c List.mem_cons_self
      have hpos : 0 < c.toNat - '0'.toNat := by
        have hle := (toNat_bounds_of_isDigit hdigit).1
        have hne : c.toNat ≠ '0'.toNat := fun heq => hc (Char.toNat_inj.mp heq)
        omega
      rw [hnext, ← toDigits_append_digits hpos htail, toDigits_of_isDigit hdigit,
        List.dropWhile_cons_of_neg (by simpa using hc), List.singleton_append]

/-- A zero at the end of the coefficient stands behind the digits of the others. -/
theorem digits_of_mod_eq_zero (h : d.coefficient ≠ 0) (h10 : d.coefficient % 10 = 0) (e : ℤ) :
    d.digits = (⟨d.coefficient / 10, e⟩ : Decimal).digits ++ ['0'] := by
  unfold digits
  rw [Nat.toDigits_of_base_le (by norm_num) (by omega), h10]
  rfl

theorem digits_trim (h : d.coefficient ≠ 0) :
    d.trim.digits = d.digits.rdropWhile (· = '0') := by
  fun_induction trim d with
  | case1 d hzero => exact absurd hzero h
  | case2 d _ h10 ih =>
    rw [ih (show d.coefficient / 10 ≠ 0 by omega), digits_of_mod_eq_zero h h10 (d.exponent + 1),
      List.rdropWhile_concat_pos _ _ _ (by simp)]
  | case3 d _ hlast =>
    symm
    rw [List.rdropWhile_eq_self_iff]
    intro hne hzero
    apply Layout.last_digits_ne_zero hlast
    rw [List.getLast?_eq_getLast_of_ne_nil hne, of_decide_eq_true hzero]

/-- The zeros at the end do not move the point. -/
theorem point_trim (h : d.coefficient ≠ 0) : d.trim.point = d.point := by
  fun_induction trim d with
  | case1 d hzero => exact absurd hzero h
  | case2 d _ h10 ih =>
    rw [ih (show d.coefficient / 10 ≠ 0 by omega)]
    unfold point
    rw [digits_of_mod_eq_zero h h10 (d.exponent + 1), List.length_append, List.length_singleton]
    push_cast
    ring
  | case3 => rfl

/-- Digits that begin and end with none that is a zero, and the place of the point before them: the
number `0.d₁d₂… * 10 ^ p`. -/
structure IsSignificant (ds : List Char) (p : ℤ) (q : ℚ) : Prop extends IsDigits ds where
  first : ds.head? ≠ some '0'
  last : ds.getLast? ≠ some '0'
  value : (Nat.ofDigitChars 10 ds 0 : ℚ) / 10 ^ ds.length * 10 ^ p = q

theorem isSignificant_of_mod_ne_zero (h : d.coefficient % 10 ≠ 0) :
    IsSignificant d.digits d.point d.toRat where
  toIsDigits := d.isDigits_digits
  first := head?_toDigits_ne_zero fun hzero => h (by rw [hzero])
  last := Layout.last_digits_ne_zero h
  value := by
    unfold toRat point
    rw [ofDigitChars_digits, zpow_add₀ (by norm_num), zpow_natCast]
    field_simp

theorem isSignificant_trim (h : d.coefficient ≠ 0) :
    IsSignificant d.trim.digits d.trim.point d.toRat := by
  have hne : d.trim.coefficient ≠ 0 := by
    rw [coefficient_ne_zero_iff, toRat_trim]
    exact coefficient_ne_zero_iff.mp h
  rw [← toRat_trim d]
  exact isSignificant_of_mod_ne_zero ((trim_coefficient d).resolve_left hne)

/-- The significant digits of a number in its parts: without the zeros at their ends, of which those
at the start move the point. -/
def strip (ws fs : List Char) (e : ℤ) : List Char × ℤ :=
  let ds := (ws ++ fs).dropWhile (· = '0')
  (ds.rdropWhile (· = '0'), ws.length - ((ws ++ fs).length - ds.length : Nat) + e)

theorem coefficient_ofParts_ne_zero_iff (hd : ∀ c ∈ ws ++ fs, c.isDigit) (e : ℤ) :
    (ofParts ws fs e).coefficient ≠ 0 ↔ ∃ c ∈ ws ++ fs, c ≠ '0' := by
  show Nat.ofDigitChars 10 (ws ++ fs) 0 ≠ 0 ↔ _
  constructor
  · intro h
    by_contra hzero
    push Not at hzero
    apply h
    rw [List.eq_replicate_of_mem hzero, Nat.ofDigitChars_replicate_zero, Nat.mul_zero]
  · intro h hzero
    have hhead := List.head?_dropWhile_not (fun c => decide (c = '0')) (ws ++ fs)
    rw [← toDigits_ofDigitChars hd h, hzero] at hhead
    exact absurd hhead (by simp)

theorem strip_eq_trim (hd : ∀ c ∈ ws ++ fs, c.isDigit) (h : ∃ c ∈ ws ++ fs, c ≠ '0') (e : ℤ) :
    strip ws fs e = ((ofParts ws fs e).trim.digits, (ofParts ws fs e).trim.point) := by
  have hne := (coefficient_ofParts_ne_zero_iff hd e).mpr h
  have hdigits : (ofParts ws fs e).digits = (ws ++ fs).dropWhile (· = '0') :=
    toDigits_ofDigitChars hd h
  have hle : ((ws ++ fs).dropWhile (· = '0')).length ≤ (ws ++ fs).length :=
    (List.dropWhile_suffix _).length_le
  rw [digits_trim hne, point_trim hne, point, hdigits, strip, Prod.mk.injEq]
  refine ⟨rfl, ?_⟩
  show _ = _ + (e - (fs.length : ℤ))
  rw [List.length_append] at hle ⊢
  omega

end Decimal

namespace Numeral

/-- Digits that are not all zeros, with a point among them or without one. -/
inductive IsMantissa : List Char → ℚ → Prop where
  | intro {ws : List Char} {f : Option (List Char)} (hw : ∀ c ∈ ws, c.isDigit)
      (hf : ∀ fs ∈ f, ∀ c ∈ fs, c.isDigit) (hne : ∃ c ∈ ws ++ f.getD [], c ≠ '0') :
      IsMantissa (ws ++ spellFraction f) (Nat.ofDigitChars 10 ws 0 +
        Nat.ofDigitChars 10 (f.getD []) 0 / 10 ^ (f.getD []).length)

/-- The texts of positive numbers: a mantissa, and a power of ten with a sign or without one. -/
inductive IsPositive : List Char → ℚ → Prop where
  | plain {s : List Char} {q : ℚ} (h : IsMantissa s q) : IsPositive s q
  | power {s : List Char} {q : ℚ} (h : IsMantissa s q) (sign : Sign) {ds : List Char}
      (hd : IsDigits ds) : IsPositive (s ++ 'e' :: (sign.spell ++ ds)) (q * 10 ^
        (if sign = .minus then -Nat.ofDigitChars 10 ds 0 else Nat.ofDigitChars 10 ds 0 : ℤ))

/-- What stands before the first `c` and what stands behind it; nothing stands behind a missing
one. -/
def cut (c : Char) (s : List Char) : List Char × List Char :=
  (s.takeWhile (· ≠ c), (s.dropWhile (· ≠ c)).tail)

/-- The power that a signed text writes; a text without digits writes zero. -/
def power (s : List Char) : ℤ :=
  let (sign, ds) := takeSign s
  let n : ℤ := Nat.ofDigitChars 10 ds 0
  if sign = .minus then -n else n

/-- The significant digits of a text and the place of the point before them. -/
def significant (s : List Char) : List Char × ℤ :=
  let (mantissa, exponent) := cut 'e' s
  let (whole, fraction) := cut '.' mantissa
  Decimal.strip whole fraction (power exponent)

variable {s t ws ds : List Char} {f : Option (List Char)} {e : Option ℤ} {q : ℚ} {n : Numeral}
  {c : Char} {l : Layout} {d : Decimal}

theorem ne_of_notMem (h : c ∉ s) : ∀ a ∈ s, (a ≠ c : Bool) := by
  intro a ha
  exact decide_eq_true fun heq => h (heq ▸ ha)

theorem cut_append_cons (h : c ∉ s) (t : List Char) : cut c (s ++ c :: t) = (s, t) := by
  have hall := ne_of_notMem h
  rw [cut, List.takeWhile_append_of_pos hall, List.dropWhile_append_of_pos hall]
  simp

theorem cut_of_notMem (h : c ∉ s) : cut c s = (s, []) := by
  have hall := ne_of_notMem h
  rw [cut, List.takeWhile_eq_self_iff.mpr hall, List.dropWhile_eq_nil_iff.mpr hall, List.tail_nil]

theorem notMem_of_isDigit (hw : ∀ c ∈ ws, c.isDigit) (hc : c.isDigit = false) : c ∉ ws := by
  intro hmem
  rw [hw c hmem] at hc
  cases hc

theorem cut_mantissa (hw : ∀ c ∈ ws, c.isDigit) :
    cut '.' (ws ++ spellFraction f) = (ws, f.getD []) := by
  have hpoint : '.' ∉ ws := notMem_of_isDigit hw (by decide)
  cases f with
  | none => rw [spellFraction, List.append_nil, cut_of_notMem hpoint, Option.getD_none]
  | some fs => rw [spellFraction, cut_append_cons hpoint, Option.getD_some]

theorem e_notMem_mantissa (hw : ∀ c ∈ ws, c.isDigit) (hf : ∀ fs ∈ f, ∀ c ∈ fs, c.isDigit) :
    'e' ∉ ws ++ spellFraction f := by
  rw [List.mem_append, not_or]
  refine ⟨notMem_of_isDigit hw (by decide), ?_⟩
  cases f with
  | none => exact List.not_mem_nil
  | some fs =>
    rw [spellFraction, List.mem_cons, not_or]
    exact ⟨by decide, notMem_of_isDigit (hf fs rfl) (by decide)⟩

theorem power_spell (sign : Sign) (hd : IsDigits ds) : power (sign.spell ++ ds) =
    if sign = .minus then -(Nat.ofDigitChars 10 ds 0 : ℤ) else Nat.ofDigitChars 10 ds 0 := by
  have hsign := takeSign_spell_digits sign hd []
  rw [List.append_nil] at hsign
  rw [power, hsign]

theorem isDigit_of_mem_mantissa (hw : ∀ c ∈ ws, c.isDigit) (hf : ∀ fs ∈ f, ∀ c ∈ fs, c.isDigit) :
    ∀ c ∈ ws ++ f.getD [], c.isDigit := by
  intro c hc
  cases f with
  | none => exact hw c (by simpa using hc)
  | some fs =>
    rcases List.mem_append.mp hc with hc | hc
    · exact hw c hc
    · exact hf fs rfl c hc

theorem hasDigits_of_mem (h : c ∈ n.whole ++ n.fraction.getD []) : n.hasDigits := by
  obtain ⟨sign, ws, f, e⟩ := n
  cases f with
  | none =>
    have hw : ws ≠ [] := List.ne_nil_of_mem (by simpa using h)
    simp [hasDigits, hw]
  | some fs =>
    rcases List.mem_append.mp h with hc | hc
    · simp [hasDigits, List.ne_nil_of_mem hc]
    · simp [hasDigits, show fs ≠ [] from List.ne_nil_of_mem hc]

/-- A mantissa with a power of ten behind it is read as a numeral. -/
theorem take_mantissa (hw : ∀ c ∈ ws, c.isDigit) (hf : ∀ fs ∈ f, ∀ c ∈ fs, c.isDigit)
    (hne : ∃ c ∈ ws ++ f.getD [], c ≠ '0') (ht : SpellsExponent e t) :
    take (ws ++ spellFraction f ++ t) = (⟨.absent, ws, f, e⟩, []) := by
  have hs : Spells ⟨.absent, ws, f, e⟩ (ws ++ spellFraction f ++ t) :=
    ⟨hw, hf, t, ht, by rw [Sign.spell, List.nil_append, List.append_assoc]⟩
  obtain ⟨c, hc, -⟩ := hne
  have htake : take (ws ++ spellFraction f ++ t ++ []) = (⟨.absent, ws, f, e⟩, []) :=
    take_append hs (hasDigits_of_mem hc) (by simp [Ends])
  rwa [List.append_nil] at htake

/-- A text of a positive number is taken apart into the parts of a numeral. -/
theorem IsPositive.exists_take (h : IsPositive s q) : ∃ n, take s = (n, []) ∧
    significant s = Decimal.strip n.whole (n.fraction.getD []) (n.exponent.getD 0) ∧
    (∀ c ∈ n.whole ++ n.fraction.getD [], c.isDigit) ∧
    (∃ c ∈ n.whole ++ n.fraction.getD [], c ≠ '0') ∧ n.decimal.toRat = q := by
  cases h with
  | plain h =>
    obtain ⟨hw, hf, hne⟩ := h
    have htake := take_mantissa hw hf hne .absent
    rw [List.append_nil] at htake
    refine ⟨_, htake, ?_, isDigit_of_mem_mantissa hw hf, hne, ?_⟩
    · rw [significant, cut_of_notMem (e_notMem_mantissa hw hf)]
      dsimp only
      rw [cut_mantissa hw]
      rfl
    · rw [decimal, Decimal.toRat_ofParts, Option.getD_none, zpow_zero, mul_one]
  | power h sign hd =>
    obtain ⟨hw, hf, hne⟩ := h
    refine ⟨_, take_mantissa hw hf hne (.power (.inl rfl) sign hd), ?_,
      isDigit_of_mem_mantissa hw hf, hne, Decimal.toRat_ofParts _ _ _⟩
    rw [significant, cut_append_cons (e_notMem_mantissa hw hf)]
    dsimp only
    rw [cut_mantissa hw, power_spell sign hd, Option.getD_some]

/-- Layouts with a point write numbers that are not zero as such texts. -/
theorem isPositive_write (hm : l.mark = '.') (h : d.coefficient ≠ 0) :
    IsPositive (l.write d) d.toRat := by
  obtain ⟨n, hn⟩ := exists_writes hm .absent d
  obtain ⟨sign, ws, f, e⟩ := n
  obtain rfl : sign = .absent := hn.sign
  have hw : ∀ c ∈ ws, c.isDigit := hn.wellFormed.whole.isDigit
  have hf : ∀ fs ∈ f, ∀ c ∈ fs, c.isDigit := fun fs hfs => (hn.wellFormed.fraction fs hfs).isDigit
  have htext : l.write d = ws ++ spellFraction f ++ spellExponent l e := by
    have hspell := hn.spell
    rw [Sign.spell, List.nil_append] at hspell
    rw [← hspell, spell, Sign.spell, List.nil_append, List.append_assoc]
  have hrat : (Decimal.ofParts ws (f.getD []) (e.getD 0)).toRat = d.toRat := hn.toRat
  have hne : ∃ c ∈ ws ++ f.getD [], c ≠ '0' := by
    rw [← Decimal.coefficient_ofParts_ne_zero_iff (isDigit_of_mem_mantissa hw hf) (e.getD 0),
      Decimal.coefficient_ne_zero_iff, hrat]
    exact Decimal.coefficient_ne_zero_iff.mp h
  have hmantissa := IsMantissa.intro hw hf hne
  rw [Decimal.toRat_ofParts] at hrat
  rw [htext, ← hrat]
  cases e with
  | none =>
    rw [spellExponent, List.append_nil, Option.getD_none, zpow_zero, mul_one]
    exact .plain hmantissa
  | some e =>
    have hletter : (l.writeExponent e).head? = some 'e' := rfl
    have hspells := spellsExponent_spellExponent l (some e)
    rw [spellExponent] at hspells ⊢
    generalize l.writeExponent e = t at *
    cases hspells with
    | power hc sign hd =>
      obtain rfl := Option.some.inj hletter
      exact .power hmantissa sign hd

/-- What is read off a text of a positive number are the digits and the point of its decimal. -/
theorem IsPositive.significant_eq (h : IsPositive s q) (hd : d.toRat = q) :
    significant s = (d.trim.digits, d.trim.point) := by
  obtain ⟨n, -, hs, hdigits, hne, hq⟩ := h.exists_take
  rw [hs, Decimal.strip_eq_trim hdigits hne]
  rw [show d.trim = n.decimal.trim from Decimal.trim_congr (hd.trans hq.symm), decimal]

/-- The digits and the point that are read off the text of a positive number are significant and
denote it exactly; they are those of the decimal of its numeral, and for the text of a binary64
value those of its shortest decimal. -/
theorem significant_faithful :
    (∀ s q, IsPositive s q → ∃ ds p, significant s = (ds, p) ∧ Decimal.IsSignificant ds p q ∧
      ∃ n, take s = (n, []) ∧ n.decimal.trim.digits = ds ∧ n.decimal.trim.point = p) ∧
    ∀ x, isFinite x → ¬ isZero x → ∃ s,
      (Layout.plain.render x).toList = (signOf (Double.isNegative x)).spell ++ s ∧
      IsPositive s (Decimal.shortest (ordinal x)).toRat ∧
      significant s =
        ((Decimal.shortest (ordinal x)).digits, (Decimal.shortest (ordinal x)).point) := by
  constructor
  · intro s q h
    obtain ⟨n, htake, hs, hdigits, hne, hq⟩ := h.exists_take
    have hc : n.decimal.coefficient ≠ 0 :=
      (Decimal.coefficient_ofParts_ne_zero_iff hdigits _).mpr hne
    have hsignificant := Decimal.isSignificant_trim hc
    rw [hq] at hsignificant
    exact ⟨_, _, h.significant_eq hq, hsignificant, n, htake, rfl, rfl⟩
  · intro x hx hz
    have hc : (Decimal.shortest (ordinal x)).coefficient ≠ 0 :=
      Decimal.coefficient_shortest_ne_zero (Double.isFinite_iff.mp hx).le
        fun h0 => hz (Double.isZero_iff.mpr h0)
    have hpositive := isPositive_write (l := .plain) rfl hc
    refine ⟨_, Layout.toList_render hx, hpositive, ?_⟩
    rw [hpositive.significant_eq rfl, Decimal.trim_shortest]

example : significant "00120.500e-07".toList = ("1205".toList, -4) := by decide

end Numeral
end DecimalComma
