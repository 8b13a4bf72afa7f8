import DecimalComma.Grammar
import DecimalComma.Proofs.Decimal.FloatText
import DecimalComma.Proofs.Double.Nearest
import DecimalComma.Proofs.Token.Tokenization

/-! The values of numbers. With a point for its comma the text of a number is read as a value,
whatever its length, and this is the value nearest to the number that the text denotes; so the text
matters only through that number. -/
namespace DecimalComma.Token
open Double (IsNearest Rounds isFinite isInfinite isNaN isNegative number ordinal)

/-- The number that a text denotes: the digits before the comma, and a fraction behind it. -/
inductive Means : List Char → ℚ → Prop where
  | whole {ds : List Char} (hd : IsDigits ds) : Means ds (Nat.ofDigitChars 10 ds 0)
  | fraction {ds fs : List Char} (hd : IsDigits ds) (hf : IsDigits fs) :
      Means (ds ++ ',' :: fs)
        (Nat.ofDigitChars 10 ds 0 + Nat.ofDigitChars 10 fs 0 / 10 ^ fs.length)

/-- A text with points for its commas. -/
def pointed (w : List Char) : List Char := w.map fun c => if c = decimalMark then '.' else c

variable {w ds fs : List Char} {q q' : ℚ} {t t' : Token}

theorem Lexeme.exists_means (h : Lexeme .number w) : ∃ q, Means w q := by
  cases h with
  | whole hd => exact ⟨_, .whole hd⟩
  | fraction hd hf => exact ⟨_, .fraction hd hf⟩

theorem Means.nonneg (h : Means w q) : 0 ≤ q := by
  cases h <;> positivity

theorem toRat_ofParts (ds fs : List Char) : (Decimal.ofParts ds fs 0).toRat =
    Nat.ofDigitChars 10 ds 0 + Nat.ofDigitChars 10 fs 0 / 10 ^ fs.length := by
  rw [Decimal.toRat_ofParts, zpow_zero, mul_one]

theorem Means.toRat_decimalOf (h : Means w q) : (decimalOf w).toRat = q := by
  cases h with
  | whole hd =>
    rw [decimalOf_whole hd, toRat_ofParts]
    simp
  | fraction hd hf => rw [decimalOf_fraction hd, toRat_ofParts]

theorem pointed_eq_self (h : ∀ c ∈ w, c ≠ decimalMark) : pointed w = w :=
  (List.map_congr_left fun c hc => if_neg (h c hc)).trans (List.map_id w)

theorem pointed_append (w w' : List Char) : pointed (w ++ w') = pointed w ++ pointed w' :=
  List.map_append

theorem pointed_cons_mark (w : List Char) : pointed (decimalMark :: w) = '.' :: pointed w := rfl

theorem IsDigits.pointed_eq (h : IsDigits ds) : pointed ds = ds :=
  pointed_eq_self fun c hc => by simpa [decimalMark] using h.ne_comma c hc

/-- The text of a number is a numeral once its comma is a point. -/
theorem Means.exists_wellFormed (h : Means w q) : ∃ n : Numeral, n.WellFormed ∧
    n.spell .plain = pointed w ∧ n.isNegative = false ∧ n.decimal = decimalOf w := by
  cases h with
  | whole hd =>
    refine ⟨⟨.absent, w, none, none⟩, ⟨hd, by simp⟩, ?_, rfl, (decimalOf_whole hd).symm⟩
    rw [hd.pointed_eq]
    exact List.append_nil w
  | fraction hd hf =>
    rename_i ds fs
    have hpoint : pointed (ds ++ ',' :: fs) = ds ++ '.' :: fs := by
      rw [pointed_append, hd.pointed_eq, ← decimalMark, pointed_cons_mark, hf.pointed_eq]
    refine ⟨⟨.absent, ds, some fs, none⟩, ⟨hd, ?_⟩, ?_, rfl, (decimalOf_fraction hd fs).symm⟩
    · rintro _ ⟨⟩
      exact hf
    · rw [hpoint]
      simp [Numeral.spell, Numeral.spellFraction, Numeral.spellExponent, Numeral.Sign.spell]

theorem decimal_eq_decimalOf (t : Token) : t.decimal = decimalOf t.payload.toList := by
  unfold decimalOf decimal
  rw [String.toList_ofList]

theorem Means.read?_pointed (h : Means t.payload.toList q) :
    FloatText.read? (pointed t.payload.toList) = some t.value := by
  obtain ⟨n, hn, hspell, hsign, hdecimal⟩ := h.exists_wellFormed
  have hvalue : n.toDouble = t.value := by
    rw [Numeral.toDouble, hsign, hdecimal, value, decimal_eq_decimalOf]
  have hplain : FloatText.Plain (pointed t.payload.toList) t.value := by
    rw [← hspell, ← hvalue]
    exact .numeral (hn.spells .plain) hn.hasDigits
  exact hplain.read?_eq

theorem Means.rounds (h : Means t.payload.toList q) : Rounds q t.decimal.ordinal := by
  have hr := t.decimal.rounds_ordinal
  rwa [decimal_eq_decimalOf t, h.toRat_decimalOf, ← decimal_eq_decimalOf] at hr

theorem Means.isNearest_value (h : Means t.payload.toList q) : IsNearest q t.value :=
  Double.isNearest_ofOrdinal h.nonneg h.rounds

theorem isNegative_value (t : Token) : isNegative t.value = false :=
  Double.isNegative_ofOrdinal false t.decimal.ordinal_le_infinityOrdinal

/-- Texts that denote the same number have the same value. -/
theorem Means.value_congr (h : Means t.payload.toList q) (h' : Means t'.payload.toList q) :
    t.value = t'.value := by
  unfold value Decimal.toDouble
  rw [h.rounds.unique h'.rounds]

/-- Values follow the numbers that the texts denote, with infinity above all. -/
theorem Means.value_mono (h : Means t.payload.toList q) (h' : Means t'.payload.toList q')
    (hle : q ≤ q') : isInfinite t'.value ∨
      isFinite t.value ∧ isFinite t'.value ∧ number t.value ≤ number t'.value := by
  have hord := h.rounds.mono h'.rounds hle
  have hn := t.decimal.ordinal_le_infinityOrdinal
  have hn' := t'.decimal.ordinal_le_infinityOrdinal
  unfold value Decimal.toDouble
  rw [Double.isInfinite_iff, Double.isFinite_iff, Double.isFinite_iff,
    Double.ordinal_ofOrdinal false hn, Double.ordinal_ofOrdinal false hn',
    Double.number_ofOrdinal hn, Double.number_ofOrdinal hn']
  have hnum := Double.toRat_strictMono.monotone hord
  by_cases hinf : t'.decimal.ordinal = Double.infinityOrdinal
  · exact .inl hinf
  · exact .inr ⟨by omega, by omega, hnum⟩

/-- Every number of a source has a value, which the parser takes: its text is read as the value
nearest to what it denotes, which is neither negative nor not a number. Numbers of all sources are
valued by what they denote, and in that order. -/
theorem value_of_mem_scan {source : String} (ht : t ∈ scan source) (hk : t.kind = .number) :
    ∃ q, Means t.payload.toList q ∧
      FloatText.read? (pointed t.payload.toList) = some t.value ∧
      (∀ rest, ∃ h, Grammar.parse .atomic (t :: rest) = .ok ⟨.number t.value, rest, h⟩) ∧
      IsNearest q t.value ∧ isNegative t.value = false ∧
      ∀ (source' : String), ∀ t' ∈ scan source', t'.kind = .number →
        ∀ q', Means t'.payload.toList q' →
          (q = q' → t.value.toBits = t'.value.toBits) ∧
          (q ≤ q' → isInfinite t'.value ∨
            isFinite t.value ∧ isFinite t'.value ∧ number t.value ≤ number t'.value) := by
  have hread := (tokenization_scan source).reads t ht
  obtain ⟨q, hq⟩ := (hk ▸ hread.lexeme).exists_means
  refine ⟨q, hq, hq.read?_pointed, ?_, hq.isNearest_value, isNegative_value t, ?_⟩
  · intro rest
    refine ⟨by simp, ?_⟩
    rw [Grammar.parse, dif_pos rfl]
    exact if_pos hk
  · intro source' t' _ _ q' hq'
    refine ⟨?_, hq.value_mono hq'⟩
    rintro rfl
    exact congrArg Float.toBits (hq.value_congr hq')

/-- Zeros on either side of a number do not matter. -/
theorem value_of_mem_scan_zeros :
    (Token.mk "007,50" 2 .number).value.toBits = (Token.mk "7,5" 0 .number).value.toBits := by
  have hscan : scan "1+007,50" =
      [⟨"1", 0, .number⟩, ⟨"+", 1, .operator⟩, ⟨"007,50", 2, .number⟩] := by cbv
  have hscan' : scan "7,5" = [⟨"7,5", 0, .number⟩] := by cbv
  have hmem : ⟨"007,50", 2, .number⟩ ∈ scan "1+007,50" := by simp [hscan]
  have hmem' : ⟨"7,5", 0, .number⟩ ∈ scan "7,5" := by simp [hscan']
  obtain ⟨q, hq, -, -, -, -, hall⟩ := value_of_mem_scan hmem rfl
  obtain ⟨q', hq', -⟩ := value_of_mem_scan hmem' rfl
  apply (hall _ _ hmem' rfl q' hq').1
  have hd : decimalOf "007,50".toList = ⟨750, -2⟩ := by decide
  have hd' : decimalOf "7,5".toList = ⟨75, -1⟩ := by decide
  rw [← hq.toRat_decimalOf, ← hq'.toRat_decimalOf, hd, hd']
  norm_num [Decimal.toRat]

end DecimalComma.Token
