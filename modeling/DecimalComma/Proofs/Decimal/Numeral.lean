import DecimalComma.Decimal.Numeral
import DecimalComma.Proofs.Decimal.Layout

/-! Numerals are read as they are spelled: a sign, digits, a fraction and a power of ten are taken
apart again, whatever follows that could not belong to them. -/
namespace DecimalComma.Numeral
open Token (IsDigits)

def Sign.spell : Sign → List Char
  | absent => []
  | plus => ['+']
  | minus => ['-']

def spellFraction : Option (List Char) → List Char
  | none => []
  | some ds => '.' :: ds

def spellExponent (l : Layout) : Option Int → List Char
  | none => []
  | some e => l.writeExponent e

/-- The text of a numeral, with a power of ten as a layout writes it. -/
def spell (l : Layout) (n : Numeral) : List Char :=
  n.sign.spell ++ (n.whole ++ (spellFraction n.fraction ++ spellExponent l n.exponent))

/-- The texts of a power of ten: none, or a letter, a sign and digits. -/
inductive SpellsExponent : Option Int → List Char → Prop where
  | absent : SpellsExponent none []
  | power {c : Char} (hc : c = 'e' ∨ c = 'E') (sign : Sign) {ds : List Char} (hd : IsDigits ds) :
      SpellsExponent
        (some (if sign = .minus then -Nat.ofDigitChars 10 ds 0 else Nat.ofDigitChars 10 ds 0))
        (c :: (sign.spell ++ ds))

/-- The texts of a numeral, its power of ten written in any way. -/
structure Spells (n : Numeral) (s : List Char) : Prop where
  whole : ∀ c ∈ n.whole, c.isDigit
  fraction : ∀ ds ∈ n.fraction, ∀ c ∈ ds, c.isDigit
  text : ∃ t, SpellsExponent n.exponent t ∧
    s = n.sign.spell ++ (n.whole ++ (spellFraction n.fraction ++ t))

/-- A numeral with a digit wherever there can be some. -/
structure WellFormed (n : Numeral) : Prop where
  whole : IsDigits n.whole
  fraction : ∀ ds ∈ n.fraction, IsDigits ds

/-- A text that no numeral goes on with. -/
def Ends (rest : List Char) : Prop :=
  ∀ c ∈ rest.head?, c.isDigit = false ∧ c ≠ '.' ∧ c ≠ 'e' ∧ c ≠ 'E'

variable {l : Layout} {n : Numeral} {ds rest s t : List Char}

/-- Layouts write powers of ten. -/
theorem spellsExponent_spellExponent (l : Layout) (e : Option Int) :
    SpellsExponent e (spellExponent l e) := by
  cases e with
  | none => exact .absent
  | some e =>
    obtain ⟨ds, hd, ht, hn⟩ := l.exists_writeExponent e
    rw [spellExponent, ht]
    by_cases he : e < 0
    · have h := SpellsExponent.power (.inl rfl) .minus hd
      rw [if_pos rfl, hn, show (-(e.natAbs : Int)) = e by omega] at h
      rw [if_pos he]
      exact h
    · have h := SpellsExponent.power (.inl rfl) .plus hd
      rw [if_neg (by decide), hn, show ((e.natAbs : Int)) = e by omega] at h
      rw [if_neg he]
      exact h

theorem WellFormed.spells (hn : n.WellFormed) (l : Layout) : n.Spells (n.spell l) :=
  ⟨hn.whole.isDigit, fun ds hds => (hn.fraction ds hds).isDigit,
    _, spellsExponent_spellExponent l _, rfl⟩

theorem WellFormed.hasDigits (hn : n.WellFormed) : n.hasDigits := by
  simp [Numeral.hasDigits, hn.whole.ne_nil]

theorem takeDigits_append (hd : ∀ c ∈ ds, c.isDigit) (hr : ∀ c ∈ rest.head?, c.isDigit = false) :
    takeDigits (ds ++ rest) = (ds, rest) := by
  have htake : (ds ++ rest).takeWhile Char.isDigit = ds :=
    Token.takeWhile_append_of_head hd fun c hc => by simp [hr c hc]
  have hdrop : (ds ++ rest).dropWhile Char.isDigit = rest := by
    have hall := List.takeWhile_append_dropWhile (p := Char.isDigit) (l := ds ++ rest)
    rw [htake] at hall
    exact List.append_cancel_left hall
  rw [takeDigits, List.span_eq_takeWhile_dropWhile, htake, hdrop]

theorem takeSign_spell (s : Sign) (hr : ∀ c ∈ rest.head?, c ≠ '-' ∧ c ≠ '+') :
    takeSign (s.spell ++ rest) = (s, rest) := by
  cases s with
  | plus => rfl
  | minus => rfl
  | absent =>
    show takeSign rest = _
    unfold takeSign
    split
    · exact absurd rfl (hr _ rfl).1
    · exact absurd rfl (hr _ rfl).2
    · rfl

theorem takeSign_spell_digits (s : Sign) (hd : IsDigits ds) (rest : List Char) :
    takeSign (s.spell ++ (ds ++ rest)) = (s, ds ++ rest) := by
  obtain ⟨d, ds', rfl, hd'⟩ := hd.exists_cons
  apply takeSign_spell
  rintro _ ⟨⟩
  constructor <;> rintro rfl <;> simp at hd'

theorem takeFraction_spell {f : Option (List Char)} (hf : ∀ ds ∈ f, ∀ c ∈ ds, c.isDigit)
    (hr : ∀ c ∈ rest.head?, c.isDigit = false ∧ c ≠ '.') :
    takeFraction (spellFraction f ++ rest) = (f, rest) := by
  cases f with
  | some ds =>
    have ht := takeDigits_append (hf ds rfl) fun c hc => (hr c hc).1
    rw [spellFraction, List.cons_append, takeFraction, ht]
  | none =>
    show takeFraction rest = _
    unfold takeFraction
    split
    · exact absurd rfl (hr _ rfl).2
    · rfl

theorem takeExponent_append {e : Option Int} (h : SpellsExponent e t)
    (hr : ∀ c ∈ rest.head?, c.isDigit = false ∧ c ≠ 'e' ∧ c ≠ 'E') :
    takeExponent (t ++ rest) = (e, rest) := by
  cases h with
  | power hc sign hd =>
    rename_i c ds
    have hdigits := takeDigits_append hd.isDigit fun c hc => (hr c hc).1
    obtain ⟨d, ds', rfl, -⟩ := hd.exists_cons
    rw [List.cons_append, List.append_assoc, takeExponent, if_pos hc]
    simp only [takeSign_spell_digits sign hd, hdigits]
  | absent =>
    show takeExponent rest = _
    cases rest with
    | nil => rfl
    | cons c r =>
      have hc := hr c rfl
      rw [takeExponent, if_neg (by tauto)]

/-- A numeral is read as it is spelled. -/
theorem take_append (hs : n.Spells s) (hd : n.hasDigits) (hr : Ends rest) :
    take (s ++ rest) = (n, rest) := by
  obtain ⟨sign, whole, fraction, exponent⟩ := n
  obtain ⟨hw, hf, t, ht, rfl⟩ := hs
  have hexp : ∀ c ∈ (t ++ rest).head?, c.isDigit = false ∧ c ≠ '.' := by
    cases ht with
    | absent => exact fun c hc => ⟨(hr c hc).1, (hr c hc).2.1⟩
    | power hc =>
      rintro c ⟨⟩
      rcases hc with rfl | rfl <;> decide
  have hfrac : ∀ c ∈ (spellFraction fraction ++ (t ++ rest)).head?, c.isDigit = false := by
    cases fraction with
    | none => exact fun c hc => (hexp c hc).1
    | some ds =>
      rintro c ⟨⟩
      decide
  have hhead : ∀ c ∈ (whole ++ (spellFraction fraction ++ (t ++ rest))).head?,
      c ≠ '-' ∧ c ≠ '+' := by
    cases whole with
    | cons d ds =>
      rintro _ ⟨⟩
      have hd := hw d (by simp)
      constructor <;> rintro rfl <;> simp at hd
    | nil =>
      cases fraction with
      | none => simp [hasDigits] at hd
      | some ds =>
        rintro _ ⟨⟩
        decide
  have hsign := takeSign_spell sign hhead
  have hwhole := takeDigits_append hw hfrac
  have hfraction := takeFraction_spell hf hexp
  have hexponent := takeExponent_append ht fun c hc => ⟨(hr c hc).1, (hr c hc).2.2⟩
  unfold take
  simp only [List.append_assoc, hsign, hwhole, hfraction, hexponent]

theorem take_spell (hn : n.WellFormed) (hr : Ends rest) : take (n.spell l ++ rest) = (n, rest) :=
  take_append (hn.spells l) hn.hasDigits hr

theorem spell_takeSign (s : List Char) : (takeSign s).1.spell ++ (takeSign s).2 = s := by
  unfold takeSign
  split <;> rfl

theorem takeDigits_spec (s : List Char) :
    (takeDigits s).1 ++ (takeDigits s).2 = s ∧ ∀ c ∈ (takeDigits s).1, c.isDigit := by
  unfold takeDigits
  rw [List.span_eq_takeWhile_dropWhile]
  exact ⟨List.takeWhile_append_dropWhile, fun c hc => List.all_eq_true.mp List.all_takeWhile c hc⟩

theorem takeFraction_spec (s : List Char) :
    spellFraction (takeFraction s).1 ++ (takeFraction s).2 = s ∧
      ∀ ds ∈ (takeFraction s).1, ∀ c ∈ ds, c.isDigit := by
  unfold takeFraction
  split
  · rename_i r
    obtain ⟨happend, hdigits⟩ := takeDigits_spec r
    refine ⟨congrArg ('.' :: ·) happend, ?_⟩
    rintro _ ⟨⟩
    exact hdigits
  · exact ⟨rfl, by simp⟩

theorem takeExponent_spec (s : List Char) :
    ∃ t, SpellsExponent (takeExponent s).1 t ∧ t ++ (takeExponent s).2 = s := by
  cases s with
  | nil => exact ⟨[], .absent, rfl⟩
  | cons c r =>
    rw [takeExponent]
    by_cases hc : c = 'e' ∨ c = 'E'
    · have hsign := spell_takeSign r
      obtain ⟨happend, hdigits⟩ := takeDigits_spec (takeSign r).2
      rw [if_pos hc]
      dsimp only
      split
      · exact ⟨[], .absent, rfl⟩
      · rename_i ds rest hne heq
        rw [heq] at happend hdigits
        refine ⟨_, .power hc (takeSign r).1 ⟨hne, hdigits⟩, ?_⟩
        rw [List.cons_append, List.append_assoc, happend, hsign]
    · rw [if_neg hc]
      exact ⟨[], .absent, rfl⟩

/-- What is read is spelled by what is gone. -/
theorem exists_spells_take (s : List Char) : ∃ t, (take s).1.Spells t ∧ t ++ (take s).2 = s := by
  have hsign := spell_takeSign s
  obtain ⟨hwhole, hw⟩ := takeDigits_spec (takeSign s).2
  obtain ⟨hfraction, hf⟩ := takeFraction_spec (takeDigits (takeSign s).2).2
  obtain ⟨t, ht, hexponent⟩ :=
    takeExponent_spec (takeFraction (takeDigits (takeSign s).2).2).2
  refine ⟨_, ⟨hw, hf, t, ht, rfl⟩, ?_⟩
  show _ ++ (takeExponent (takeFraction (takeDigits (takeSign s).2).2).2).2 = s
  simp only [take, List.append_assoc]
  rw [hexponent, hfraction, hwhole, hsign]

/-- A numeral begins with a sign or a digit. -/
theorem WellFormed.exists_spell (hn : n.WellFormed) (l : Layout) :
    ∃ c r, n.spell l = c :: r ∧ (c = '+' ∨ c = '-' ∨ c.isDigit) := by
  obtain ⟨sign, whole, fraction, exponent⟩ := n
  obtain ⟨d, ds, rfl, hd⟩ := hn.whole.exists_cons
  cases sign with
  | absent => exact ⟨d, _, rfl, .inr (.inr hd)⟩
  | plus => exact ⟨'+', _, rfl, .inl rfl⟩
  | minus => exact ⟨'-', _, rfl, .inr (.inl rfl)⟩

/-- A numeral whose text is that of a decimal behind a sign. -/
structure Represents (l : Layout) (s : Sign) (d : Decimal) (n : Numeral) : Prop where
  wellFormed : n.WellFormed
  sign : n.sign = s
  spell : n.spell l = s.spell ++ l.write d
  toRat : n.decimal.toRat = d.toRat
  isIntegral : n.isIntegral = false
  /-- Where more than one digit stands before the point, they begin as those of the decimal do. -/
  whole : n.whole.length = 1 ∨
    n.whole.head? = d.digits.head? ∧ n.whole.length ≤ d.point.toNat ∧ d.point ≤ l.highest

theorem exists_represents_positional (hm : l.mark = '.') (hk : l.keepsFraction = true) (s : Sign)
    (d : Decimal) (hp : l.lowest < d.point ∧ d.point ≤ l.highest) : ∃ n, Represents l s d n := by
  obtain ⟨whole, fraction, hw, hf, ht, hv, hlen, hhead⟩ := l.exists_writePositional hk d
  refine ⟨⟨s, whole, some fraction, none⟩, ⟨hw, by rintro _ ⟨⟩; exact hf⟩, rfl, ?_, hv, rfl, ?_⟩
  · have hwrite : l.write d = l.writePositional d := if_pos hp
    rw [hwrite, ht, hm]
    simp only [Numeral.spell, spellFraction, spellExponent, List.append_nil]
  · rcases hhead with h | h
    · exact .inl h
    · by_cases h1 : whole.length = 1
      · exact .inl h1
      · have hpos := List.length_pos_of_ne_nil hw.ne_nil
        have hle : whole.length ≤ d.point.toNat := by omega
        exact .inr ⟨h, hle, hp.2⟩

theorem exists_represents_scientific (hm : l.mark = '.') (s : Sign) (d : Decimal)
    (hp : ¬ (l.lowest < d.point ∧ d.point ≤ l.highest)) : ∃ n, Represents l s d n := by
  obtain ⟨c, cs, hc, hcs, ht, hv⟩ := l.exists_writeScientific d
  have hwrite : l.write d = l.writeScientific d := if_neg hp
  have hd : d = ⟨d.coefficient, d.point - 1 + 1 - d.digits.length⟩ := by
    have hpoint : d.point = d.digits.length + d.exponent := rfl
    have he : d.point - 1 + 1 - d.digits.length = d.exponent := by omega
    rw [he]
  by_cases hnil : cs = []
  · subst hnil
    refine ⟨⟨s, [c], none, some (d.point - 1)⟩, ⟨Token.isDigits_singleton hc, by simp⟩, rfl, ?_, ?_,
      rfl, .inl rfl⟩
    · rw [hwrite, ht, if_pos rfl, List.append_nil]
      rfl
    · show (Decimal.ofParts [c] [] (d.point - 1)).toRat = d.toRat
      rw [hv, ← hd]
  · refine ⟨⟨s, [c], some cs, some (d.point - 1)⟩,
      ⟨Token.isDigits_singleton hc, by rintro _ ⟨⟩; exact hcs hnil⟩, rfl, ?_, ?_, rfl, .inl rfl⟩
    · rw [hwrite, ht, if_neg hnil, hm, List.append_assoc]
      rfl
    · show (Decimal.ofParts [c] cs (d.point - 1)).toRat = d.toRat
      rw [hv, ← hd]

/-- Layouts with a point write numerals. -/
theorem exists_represents (hm : l.mark = '.') (hk : l.keepsFraction = true) (s : Sign)
    (d : Decimal) : ∃ n, Represents l s d n := by
  by_cases hp : l.lowest < d.point ∧ d.point ≤ l.highest
  · exact exists_represents_positional hm hk s d hp
  · exact exists_represents_scientific hm s d hp

/-- The text of a shortest decimal is strict. -/
theorem Represents.isStrict {s : Sign} {k : Nat} (h : Represents l s (.shortest k) n)
    (hs : s ≠ .plus) : n.isStrict = true := by
  obtain ⟨sign, whole, fraction, exponent⟩ := n
  obtain rfl := h.sign
  have hw : IsDigits whole := h.wellFormed.whole
  have hfraction : fraction.all (fun ds => !ds.isEmpty) = true := by
    cases fraction with
    | none => rfl
    | some ds => simpa using (h.wellFormed.fraction ds rfl).ne_nil
  have hzero : whole.length = 1 ∨ whole.head? ≠ some '0' := by
    rcases h.whole with h1 | ⟨hhead, hlen, -⟩
    · exact .inl h1
    · by_cases hc : (Decimal.shortest k).coefficient = 0
      · rw [Decimal.shortest_eq_zero hc] at hlen
        have hpos := List.length_pos_of_ne_nil hw.ne_nil
        exact .inl (Nat.le_antisymm hlen hpos)
      · right
        rw [hhead]
        exact Decimal.head?_toDigits_ne_zero hc
  simp [Numeral.isStrict, hs, hw.ne_nil, hzero, hfraction]

end DecimalComma.Numeral
