import DecimalComma.Proofs.Decimal.Numeral
import DecimalComma.Proofs.Double.Unpacked

/-! Results as texts. The text of a result denotes the shortest decimal of the value, as its text in
the log does. Neither of its forms has a digit too many, and the size of the number decides between
them. So the text tells the value. -/
namespace DecimalComma
open Double (isFinite isNegative isZero isInfinite isNaN ordinal)
open Token (IsDigits)

namespace Numeral

variable {l : Layout} {d : Decimal} {n n' : Numeral} {s : Sign}

/-- A magnitude with a sign. -/
def Sign.apply (s : Sign) (q : ℚ) : ℚ := if s = .minus then -q else q

def signOf (negative : Bool) : Sign := if negative then .minus else .absent

theorem decide_signOf (negative : Bool) : decide (signOf negative = .minus) = negative := by
  cases negative <;> rfl

/-- The exact number that a text writes, if the text is a numeral and nothing else. -/
def number? (s : List Char) : Option ℚ :=
  let (n, rest) := take s
  if rest = [] ∧ n.hasDigits then some (n.sign.apply n.decimal.toRat) else none

/-- A numeral whose text a layout writes for a decimal behind a sign, whether it keeps fractions or
not. -/
structure Writes (l : Layout) (s : Sign) (d : Decimal) (n : Numeral) : Prop where
  wellFormed : n.WellFormed
  sign : n.sign = s
  spell : n.spell l = s.spell ++ l.write d
  toRat : n.decimal.toRat = d.toRat

theorem exists_writes (hm : l.mark = '.') (s : Sign) (d : Decimal) : ∃ n, Writes l s d n := by
  by_cases hp : l.lowest < d.point ∧ d.point ≤ l.highest
  · obtain ⟨whole, fraction, hparts⟩ := l.exists_positionalParts d
    have hwrite : l.write d = l.writePositional d := if_pos hp
    refine ⟨⟨s, whole, fraction, none⟩, ⟨hparts.whole, hparts.fraction⟩, rfl, ?_, hparts.toRat⟩
    rw [hwrite, hparts.text, hm]
    cases fraction <;> simp [Numeral.spell, spellFraction, spellExponent]
  · obtain ⟨n, hn⟩ := exists_represents_scientific hm s d hp
    exact ⟨n, hn.wellFormed, hn.sign, hn.spell, hn.toRat⟩

theorem Writes.take_eq (h : Writes l s d n) : take (s.spell ++ l.write d) = (n, []) := by
  have ht : take (n.spell l ++ []) = (n, []) := take_spell h.wellFormed (by simp [Ends])
  rwa [List.append_nil, h.spell] at ht

theorem Writes.number?_eq (h : Writes l s d n) :
    number? (s.spell ++ l.write d) = some (s.apply d.toRat) := by
  unfold number?
  rw [h.take_eq]
  dsimp only
  rw [if_pos ⟨rfl, h.wellFormed.hasDigits⟩, h.sign, h.toRat]

/-- A numeral with the sign of a finite number and the value of its shortest decimal is read as the
number. -/
theorem toDouble_of_toRat {x : Float} (h : isFinite x) (hs : n.sign = signOf (Double.isNegative x))
    (hr : n.decimal.toRat = (Decimal.shortest (ordinal x)).toRat) : n.toDouble = x := by
  have hle := (Double.isFinite_iff.mp h).le
  rw [toDouble, Numeral.isNegative, hs, decide_signOf, Decimal.toDouble, Decimal.ordinal_congr hr,
    Decimal.ordinal_shortest hle, Double.ofOrdinal_ordinal]

/-- Texts of numbers in the same layout tell the sign and the number. -/
theorem eq_of_write_eq (hm : l.mark = '.') {s' : Sign} {d' : Decimal}
    (h : s.spell ++ l.write d = s'.spell ++ l.write d') : s = s' ∧ d.toRat = d'.toRat := by
  obtain ⟨n, hn⟩ := exists_writes hm s d
  obtain ⟨n', hn'⟩ := exists_writes hm s' d'
  have ht := hn.take_eq
  rw [h, hn'.take_eq] at ht
  obtain rfl : n' = n := (Prod.mk.inj ht).1
  exact ⟨hn.sign.symm.trans hn'.sign, hn.toRat.symm.trans hn'.toRat⟩

end Numeral

namespace Layout
open Numeral (Sign signOf spellFraction number?)

/-- Digits before a point, with no zero before other digits. -/
structure IsWhole (w : List Char) : Prop extends IsDigits w where
  first : w = ['0'] ∨ w.head? ≠ some '0'

/-- Digits behind a point, with no zero at the end. -/
structure IsFraction (f : List Char) : Prop extends IsDigits f where
  last : f.getLast? ≠ some '0'

/-- Text in positional form: a sign only if it is a minus, and a point only before a fraction. -/
inductive IsPositional : List Char → Prop where
  | intro {s : Sign} {w : List Char} {f : Option (List Char)} (hs : s ≠ .plus) (hw : IsWhole w)
      (hf : ∀ ds ∈ f, IsFraction ds) : IsPositional (s.spell ++ (w ++ spellFraction f))

/-- Text in exponent form: one digit before the point, which is no zero, and an exponent with a sign
and without zeros before its digits. -/
inductive IsScientific : List Char → Prop where
  | intro {s : Sign} {c : Char} {f : Option (List Char)} {ds : List Char} {m : Char}
      (hs : s ≠ .plus) (hc : c.isDigit) (h0 : c ≠ '0') (hf : ∀ ds ∈ f, IsFraction ds)
      (hm : m ∈ ['+', '-']) (hd : IsWhole ds) :
      IsScientific (s.spell ++ (c :: spellFraction f ++ 'e' :: m :: ds))

variable {l : Layout} {d : Decimal} {s : Sign} {t : List Char} {x y : Float}

theorem mem_spell {c : Char} (h : c ∈ s.spell) : c = '+' ∨ c = '-' := by
  cases s with
  | absent => simp [Sign.spell] at h
  | plus => simp_all [Sign.spell]
  | minus => simp_all [Sign.spell]

theorem IsPositional.e_notMem (h : IsPositional t) : 'e' ∉ t := by
  cases h with
  | intro hs hw hf =>
    rename_i s w f
    intro he
    rw [List.mem_append, List.mem_append] at he
    rcases he with he | he | he
    · rcases mem_spell he with he | he <;> cases he
    · have := hw.isDigit _ he
      simp at this
    · cases f with
      | none => cases he
      | some ds =>
        rcases List.mem_cons.mp he with he | he
        · cases he
        · have := (hf ds rfl).isDigit _ he
          simp at this

theorem IsScientific.e_mem (h : IsScientific t) : 'e' ∈ t := by
  cases h
  simp

/-- A decimal that is not zero and has no zero at its end is written in a canonical form. -/
theorem last_digits_ne_zero (h : d.coefficient % 10 ≠ 0) : d.digits.getLast? ≠ some '0' := by
  have hdigit : ∀ r < 10, r ≠ 0 → Nat.digitChar r ≠ '0' := by decide
  have hlast : d.digits.getLast? = some (Nat.digitChar (d.coefficient % 10)) := by
    unfold Decimal.digits
    by_cases hlt : d.coefficient < 10
    · rw [Nat.toDigits_of_lt_base hlt, Nat.mod_eq_of_lt hlt]
      rfl
    · rw [Nat.toDigits_of_base_le (by norm_num) (by omega), List.getLast?_concat]
  rw [hlast, ne_eq, Option.some.injEq]
  exact hdigit _ (Nat.mod_lt _ (by norm_num)) h

theorem isPositional_write (hm : l.mark = '.') (hk : l.keepsFraction = false) (hs : s ≠ .plus)
    (h : d.coefficient % 10 ≠ 0) (hp : l.lowest < d.point ∧ d.point ≤ l.highest) :
    IsPositional (s.spell ++ l.write d) := by
  obtain ⟨w, f, hparts⟩ := l.exists_positionalParts d
  have htext : l.write d = w ++ spellFraction f := by
    rw [write, if_pos hp, hparts.text, hm]
    cases f <;> rfl
  rw [htext]
  refine .intro hs ⟨hparts.whole, ?_⟩ ?_
  · rcases hparts.first with hzero | hhead
    · exact .inl hzero
    · right
      rw [hhead]
      exact Decimal.head?_toDigits_ne_zero (fun hc => h (by rw [hc]))
  · intro ds hds
    have hlast := (hparts.last ds hds).resolve_left (by simp [hk])
    exact ⟨hparts.fraction ds hds, hlast ▸ last_digits_ne_zero h⟩

theorem isWhole_toDigits (n : Nat) : IsWhole (Nat.toDigits 10 n) := by
  refine ⟨Decimal.isDigits_toDigits n, ?_⟩
  by_cases hn : n = 0
  · exact .inl (by rw [hn]; rfl)
  · exact .inr (Decimal.head?_toDigits_ne_zero hn)

theorem isScientific_write (hm : l.mark = '.') (hw : l.exponentWidth ≤ 1) (hs : s ≠ .plus)
    (h : d.coefficient % 10 ≠ 0) (hp : ¬ (l.lowest < d.point ∧ d.point ≤ l.highest)) :
    IsScientific (s.spell ++ l.write d) := by
  have hd := d.isDigits_digits
  have hfirst : d.digits.head? ≠ some '0' :=
    Decimal.head?_toDigits_ne_zero (fun hc => h (by rw [hc]))
  have hlast := last_digits_ne_zero h
  have hexp (e : ℤ) : l.writeExponent e =
      'e' :: (if e < 0 then '-' else '+') :: Nat.toDigits 10 e.natAbs := by
    have hlen : l.exponentWidth - (Nat.toDigits 10 e.natAbs).length = 0 := by
      have := List.length_pos_of_ne_nil (Nat.toDigits_ne_nil (b := 10) (n := e.natAbs))
      omega
    unfold writeExponent
    dsimp only
    rw [hlen]
    rfl
  obtain ⟨c, cs, hdigits, hc⟩ := hd.exists_cons
  have htext : l.write d = c :: spellFraction (if cs = [] then none else some cs) ++
      'e' :: (if d.point - 1 < 0 then '-' else '+') :: Nat.toDigits 10 (d.point - 1).natAbs := by
    rw [write, if_neg hp, writeScientific, hdigits, hexp, hm]
    cases cs <;> rfl
  rw [htext]
  refine .intro hs hc ?_ ?_ ?_ (isWhole_toDigits _)
  · simpa [hdigits] using hfirst
  · intro ds hds
    split_ifs at hds with hnil
    · cases hds
    · cases hds
      refine ⟨⟨hnil, fun a ha => hd.isDigit a (by simp [hdigits, ha])⟩, ?_⟩
      rwa [hdigits, ← List.singleton_append, List.getLast?_append_of_ne_nil _ hnil] at hlast
  · split_ifs <;> simp

/-- The point of a decimal tells its size. -/
theorem lt_point_iff (h : d.coefficient ≠ 0) (e : ℤ) : e < d.point ↔ 10 ^ e ≤ d.toRat := by
  constructor
  · intro hlt
    exact (zpow_le_zpow_right₀ (by norm_num) (by omega)).trans (Decimal.le_toRat h)
  · intro hle
    by_contra hge
    have hp : (10 : ℚ) ^ d.point ≤ 10 ^ e := zpow_le_zpow_right₀ (by norm_num) (by omega)
    exact absurd (d.toRat_lt.trans_le hp) (not_lt.mpr hle)

theorem signOf_ne_plus (negative : Bool) : signOf negative ≠ .plus := by cases negative <;> decide

theorem signOf_injective : Function.Injective signOf := by decide

theorem apply_lt_zero_iff {q : ℚ} (hq : 0 < q) (negative : Bool) :
    (signOf negative).apply q < 0 ↔ negative = true := by
  cases negative with
  | false => simpa [signOf, Sign.apply] using hq.le
  | true => simpa [signOf, Sign.apply] using hq

theorem abs_apply {q : ℚ} (hq : 0 < q) (s : Sign) : |s.apply q| = q := by
  unfold Sign.apply
  split_ifs
  · rw [abs_neg, abs_of_pos hq]
  · exact abs_of_pos hq

theorem toList_render (h : isFinite x) : (l.render x).toList =
    (signOf (isNegative x)).spell ++ l.write (.shortest (ordinal x)) := by
  have hn : isNaN x = false := by
    have := (Double.isFinite_iff_not.mp h).1
    simpa using this
  unfold render
  rw [hn, h]
  cases isNegative x <;> simp [signOf, Sign.spell]

theorem number?_render (hm : l.mark = '.') (h : isFinite x) : number? (l.render x).toList =
    some ((signOf (isNegative x)).apply (Decimal.shortest (ordinal x)).toRat) := by
  obtain ⟨n, hn⟩ :=
    Numeral.exists_writes hm (signOf (isNegative x)) (Decimal.shortest (ordinal x))
  rw [toList_render h, hn.number?_eq]

/-- The text in one layout is the text in any other, read and laid out again without the zeros at
its end. -/
theorem toList_render_of_take {l' : Layout} {n : Numeral} {rest : List Char} (hm : l.mark = '.')
    (h : isFinite x) (ht : Numeral.take (l.render x).toList = (n, rest)) :
    (l'.render x).toList = n.sign.spell ++ l'.write n.decimal.trim := by
  obtain ⟨n', hn⟩ :=
    Numeral.exists_writes hm (signOf (isNegative x)) (Decimal.shortest (ordinal x))
  rw [toList_render h, hn.take_eq] at ht
  obtain rfl : n' = n := (Prod.mk.inj ht).1
  rw [toList_render h, hn.sign, Decimal.trim_congr hn.toRat, Decimal.trim_shortest]

theorem render_result_of_isZero (h : isZero x) :
    result.render x = if isNegative x then "-0" else "0" := by
  have ho : ordinal x = 0 := Double.isZero_iff.mp h
  have hw : result.write (.shortest 0) = ['0'] := by decide +kernel
  rw [← String.toList_inj, toList_render (Double.isFinite_of_isZero h), ho, hw]
  cases isNegative x <;> rfl

theorem render_result_of_not_isFinite (h : ¬ isFinite x) : result.render x =
    if isNaN x then "NaN" else if isNegative x then "-Infinity" else "Infinity" := by
  unfold render
  rw [if_neg h]
  cases isNegative x <;> rfl

/-- The text of a result tells whether it is finite: only then it is a numeral. -/
theorem isFinite_iff_number?_ne_none : isFinite x ↔ number? (result.render x).toList ≠ none := by
  constructor
  · intro h
    rw [number?_render rfl h]
    exact Option.some_ne_none _
  · intro hne
    by_contra h
    rw [render_result_of_not_isFinite h] at hne
    revert hne
    split_ifs <;> decide

theorem eq_of_render_eq_of_isFinite (hm : l.mark = '.') (hx : isFinite x) (hy : isFinite y)
    (h : l.render x = l.render y) : x = y := by
  have htext := congrArg String.toList h
  rw [toList_render hx, toList_render hy] at htext
  obtain ⟨hs, hd⟩ := Numeral.eq_of_write_eq hm htext
  have ho := Decimal.ordinal_congr hd
  rw [Decimal.ordinal_shortest (Double.isFinite_iff.mp hx).le,
    Decimal.ordinal_shortest (Double.isFinite_iff.mp hy).le] at ho
  exact Double.eq_iff.mpr ⟨ho, signOf_injective hs⟩

/-- The text of a result tells its value. -/
theorem eq_of_render_result_eq (h : result.render x = result.render y) :
    x = y ∨ isNaN x ∧ isNaN y := by
  have hiff : isFinite x ↔ isFinite y := by
    rw [isFinite_iff_number?_ne_none, isFinite_iff_number?_ne_none, h]
  by_cases hx : isFinite x
  · exact .inl (eq_of_render_eq_of_isFinite rfl hx (hiff.mp hx) h)
  have hy : ¬ isFinite y := hx ∘ hiff.mpr
  rw [render_result_of_not_isFinite hx, render_result_of_not_isFinite hy] at h
  by_cases hnx : isNaN x <;> by_cases hny : isNaN y
  · exact .inr ⟨hnx, hny⟩
  · rw [if_pos hnx, if_neg hny] at h
    exact absurd h (by split_ifs <;> decide)
  · rw [if_neg hnx, if_pos hny] at h
    exact absurd h (by split_ifs <;> decide)
  · rw [if_neg hnx, if_neg hny] at h
    rw [Double.isFinite_iff_not, not_and, not_not] at hx hy
    have hox := Double.isInfinite_iff.mp (hx hnx)
    have hoy := Double.isInfinite_iff.mp (hy hny)
    have hs : isNegative x = isNegative y := by
      cases hsx : isNegative x <;> cases hsy : isNegative y <;> simp_all
    exact .inl (Double.eq_iff.mpr ⟨hox.trans hoy.symm, hs⟩)

theorem coefficient_shortest_mod (h : isFinite x) (hz : ¬ isZero x) :
    (Decimal.shortest (ordinal x)).coefficient % 10 ≠ 0 :=
  Decimal.coefficient_shortest_mod (Double.isFinite_iff.mp h).le
    fun h0 => hz (Double.isZero_iff.mpr h0)

theorem isPositional_render_result (h : isFinite x) (hz : ¬ isZero x)
    (hp : -6 < (Decimal.shortest (ordinal x)).point ∧ (Decimal.shortest (ordinal x)).point ≤ 21) :
    IsPositional (result.render x).toList := by
  rw [toList_render h]
  exact isPositional_write rfl rfl (signOf_ne_plus _) (coefficient_shortest_mod h hz) hp

theorem isScientific_render_result (h : isFinite x) (hz : ¬ isZero x)
    (hp : ¬ (-6 < (Decimal.shortest (ordinal x)).point ∧
      (Decimal.shortest (ordinal x)).point ≤ 21)) : IsScientific (result.render x).toList := by
  rw [toList_render h]
  exact isScientific_write rfl le_rfl (signOf_ne_plus _) (coefficient_shortest_mod h hz) hp

theorem isPositional_render_result_iff (h : isFinite x) (hz : ¬ isZero x) :
    IsPositional (result.render x).toList ↔
      -6 < (Decimal.shortest (ordinal x)).point ∧ (Decimal.shortest (ordinal x)).point ≤ 21 := by
  constructor
  · intro hpos
    by_contra hp
    exact hpos.e_notMem (isScientific_render_result h hz hp).e_mem
  · exact isPositional_render_result h hz

theorem isScientific_render_result_iff (h : isFinite x) (hz : ¬ isZero x) :
    IsScientific (result.render x).toList ↔ ¬ IsPositional (result.render x).toList := by
  constructor
  · exact fun hsci hpos => hpos.e_notMem hsci.e_mem
  · intro hpos
    rw [isPositional_render_result_iff h hz] at hpos
    exact isScientific_render_result h hz hpos

/-- The text of a result denotes a number: the one that the text in the log denotes, with the sign
of the value and rounding to it. It is the text in the log laid out again, in positional form iff the
number is neither small nor large. -/
structure Shows (x : Float) (D : ℚ) : Prop where
  logged : number? (plain.render x).toList = some D
  relaid : ∀ n rest, Numeral.take (plain.render x).toList = (n, rest) →
    (result.render x).toList = n.sign.spell ++ result.write n.decimal.trim
  shown : number? (result.render x).toList = some D
  sign : D < 0 ↔ isNegative x
  rounds : Double.Rounds |D| (ordinal x)
  positional : IsPositional (result.render x).toList ↔ 1 / 10 ^ 6 ≤ |D| ∧ |D| < 10 ^ 21
  scientific : IsScientific (result.render x).toList ↔ ¬ (1 / 10 ^ 6 ≤ |D| ∧ |D| < 10 ^ 21)

theorem exists_shows (h : isFinite x) (hz : ¬ isZero x) : ∃ D, Shows x D := by
  have hle := (Double.isFinite_iff.mp h).le
  have hc : (Decimal.shortest (ordinal x)).coefficient ≠ 0 := by
    have hmod := coefficient_shortest_mod h hz
    omega
  have hpos := Decimal.coefficient_ne_zero_iff.mp hc
  have hform : IsPositional (result.render x).toList ↔
      1 / 10 ^ 6 ≤ (Decimal.shortest (ordinal x)).toRat ∧
        (Decimal.shortest (ordinal x)).toRat < 10 ^ 21 := by
    rw [isPositional_render_result_iff h hz, ← not_lt (a := (21 : ℤ)), lt_point_iff hc,
      lt_point_iff hc, not_le]
    norm_num
  have hr := Decimal.rounds_ordinal (.shortest (ordinal x))
  rw [Decimal.ordinal_shortest hle] at hr
  refine ⟨_, number?_render rfl h, fun _ _ => toList_render_of_take rfl h, number?_render rfl h,
    apply_lt_zero_iff hpos _, ?_, ?_, ?_⟩
  · rwa [abs_apply hpos]
  · rw [abs_apply hpos, hform]
  · rw [abs_apply hpos, isScientific_render_result_iff h hz, hform]

/-- Results as texts are faithful, canonical and tell the value apart from every other. -/
theorem render_result (x y : Float) :
    (isFinite x → ¬ isZero x → ∃ D, Shows x D) ∧
    (isZero x → result.render x = if isNegative x then "-0" else "0") ∧
    (isInfinite x → result.render x = if isNegative x then "-Infinity" else "Infinity") ∧
    (isNaN x → result.render x = "NaN") ∧
    (result.render x = result.render y → x.toBits = y.toBits ∨ isNaN x ∧ isNaN y) := by
  refine ⟨exists_shows, render_result_of_isZero, ?_, ?_, ?_⟩
  · intro h
    have hf : ¬ isFinite x := fun hf => (Double.isFinite_iff_not.mp hf).2 h
    have hn : ¬ isNaN x := by
      rw [Double.isNaN_iff, Double.isInfinite_iff.mp h]
      exact lt_irrefl _
    rw [render_result_of_not_isFinite hf, if_neg hn]
  · exact fun h => if_pos h
  · exact fun h => (eq_of_render_result_eq h).imp_left (congrArg Float.toBits)

end Layout
end DecimalComma
