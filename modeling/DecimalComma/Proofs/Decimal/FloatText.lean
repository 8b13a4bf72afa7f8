import DecimalComma.Decimal.FloatText
import DecimalComma.Proofs.Decimal.Numeral

/-! The texts that hold a number. What a text denotes is said without reading it, and the reader finds
exactly that: white space and underscores are no part of the plain texts, so the two ways in which a
text can be dressed do not meet. -/
namespace DecimalComma

/-- White space lies outside the printed characters of ASCII. -/
theorem Text.toNat_of_isSpace {c : Char} (h : isSpace c) : c.toNat ≤ 0x20 ∨ 0x85 ≤ c.toNat := by
  simp only [isSpace, spaceRanges, List.any_cons, List.any_nil, Bool.or_false, Bool.or_eq_true,
    Bool.and_eq_true, decide_eq_true_eq] at h
  omega

theorem toLower_eq_self_or (c : Char) : c.toLower = c ∨ 0x41 ≤ c.toNat ∧ c.toNat ≤ 0x5A := by
  unfold Char.toLower
  split_ifs with h
  · right
    simpa [UInt32.le_iff_toNat_le] using h
  · exact .inl rfl

theorem Numeral.Spells.char {n : Numeral} {s : List Char} (h : n.Spells s) :
    ∀ c ∈ s, c.isDigit ∨ c ∈ ['+', '-', '.', 'e', 'E'] := by
  have hsign (sign : Sign) : ∀ c ∈ sign.spell, c ∈ ['+', '-', '.', 'e', 'E'] := by
    cases sign <;> simp [Sign.spell]
  obtain ⟨sign, whole, fraction, exponent⟩ := n
  obtain ⟨hw, hf, t, ht, rfl⟩ := h
  intro c hc
  simp only [List.mem_append] at hc
  rcases hc with hc | hc | hc | hc
  · exact .inr (hsign _ c hc)
  · exact .inl (hw c hc)
  · cases fraction with
    | none => cases hc
    | some ds =>
      rw [spellFraction, List.mem_cons] at hc
      rcases hc with rfl | hc
      · exact .inr (by decide)
      · exact .inl (hf ds rfl c hc)
  · cases ht with
    | absent => simp at hc
    | power he sign hd =>
      rw [List.mem_cons, List.mem_append] at hc
      rcases hc with rfl | hc | hc
      · rcases he with rfl | rfl <;> exact .inr (by decide)
      · exact .inr (hsign _ c hc)
      · exact .inl (hd.isDigit c hc)

theorem Numeral.Spells.exists_isDigit {n : Numeral} {s : List Char} (h : n.Spells s)
    (hd : n.hasDigits) : ∃ c ∈ s, c.isDigit := by
  obtain ⟨hw, hf, t, -, rfl⟩ := h
  cases hwhole : n.whole with
  | cons c ds => exact ⟨c, by simp, hw c (by simp [hwhole])⟩
  | nil =>
    cases hfrac : n.fraction with
    | none => simp [hasDigits, hwhole, hfrac] at hd
    | some ds =>
      cases ds with
      | nil => simp [hasDigits, hwhole, hfrac] at hd
      | cons c ds => exact ⟨c, by simp [spellFraction], hf _ hfrac c (by simp)⟩

namespace FloatText
open Numeral (Sign)
open Text (isSpace strip)

/-- The plain texts: a numeral with a digit, or a word in any case behind a sign or none. -/
inductive Plain : List Char → Float → Prop where
  | numeral {n : Numeral} {s : List Char} (hs : n.Spells s) (hd : n.hasDigits) : Plain s n.toDouble
  | word {w s : List Char} {k : Nat} (hw : (w, k) ∈ words) (hs : s.map Char.toLower = w)
      (sign : Sign) : Plain (sign.spell ++ s) (Double.ofOrdinal (sign = .minus) k)

/-- A text with single underscores between some of its characters, and the text itself. -/
inductive Grouped : List Char → List Char → Prop where
  | last {c : Char} (hc : c ≠ '_') : Grouped [c] [c]
  | next {c : Char} (hc : c ≠ '_') {s t : List Char} (h : Grouped s t) : Grouped (c :: s) (c :: t)
  | gap {c : Char} (hc : c ≠ '_') {s t : List Char} (h : Grouped s t) :
      Grouped (c :: '_' :: s) (c :: t)

/-- The texts that hold a number: a plain one between white space, or with underscores in it. -/
inductive Denotes : List Char → Float → Prop where
  | spaced {a s b : List Char} {x : Float} (ha : ∀ c ∈ a, isSpace c) (hb : ∀ c ∈ b, isSpace c)
      (h : Plain s x) : Denotes (a ++ s ++ b) x
  | grouped {s t : List Char} {x : Float} (hg : Grouped s t) (h : Plain t x) : Denotes s x

variable {s t : List Char} {x y : Float} {c : Char}

/-- White space, underscores, digits and signs are not letters of words in any case. -/
theorem letter_of_words {w : List Char} {k : Nat} (hw : (w, k) ∈ words) (hc : c.toLower ∈ w) :
    isSpace c = false ∧ c ≠ '_' ∧ c.isDigit = false ∧ c ≠ '-' ∧ c ≠ '+' := by
  have hsmall : (words.all fun p => p.1.all fun c =>
      !isSpace c && (c ≠ '_' && (!c.isDigit && (c ≠ '-' && c ≠ '+')))) = true := by decide
  rcases toLower_eq_self_or c with h | h
  · have hword := List.all_eq_true.mp (List.all_eq_true.mp hsmall _ hw) c (h ▸ hc)
    simpa using hword
  · have hspace : ¬ isSpace c := fun hs => by
      have := Text.toNat_of_isSpace hs
      omega
    have hdigit : ¬ c.isDigit := fun hd => by
      have := Token.toNat_of_isDigit hd
      omega
    refine ⟨by simpa using hspace, ?_, by simpa using hdigit, ?_, ?_⟩
    all_goals
      rintro rfl
      revert h
      decide

theorem ofNumeral?_eq_some_iff :
    ofNumeral? s = some x ↔ ∃ n : Numeral, n.Spells s ∧ n.hasDigits ∧ n.toDouble = x := by
  unfold ofNumeral?
  dsimp only
  constructor
  · intro h
    split_ifs at h with hall
    obtain ⟨t, ht, hs⟩ := Numeral.exists_spells_take s
    rw [hall.1, List.append_nil] at hs
    exact ⟨_, hs ▸ ht, hall.2, Option.some.inj h⟩
  · rintro ⟨n, hs, hd, rfl⟩
    have htake : Numeral.take (s ++ []) = (n, []) :=
      Numeral.take_append hs hd (by simp [Numeral.Ends])
    rw [List.append_nil] at htake
    rw [htake, if_pos ⟨rfl, hd⟩]

theorem ofWord?_eq_some_iff :
    ofWord? s = some x ↔ ∃ (w r : List Char) (k : Nat) (sign : Sign), (w, k) ∈ words ∧
      r.map Char.toLower = w ∧ s = sign.spell ++ r ∧ Double.ofOrdinal (sign = .minus) k = x := by
  unfold ofWord?
  dsimp only
  rw [Option.map_eq_some_iff]
  constructor
  · rintro ⟨k, hk, rfl⟩
    have hs := Numeral.spell_takeSign s
    obtain ⟨l₁, l₂, hl, -⟩ := List.lookup_eq_some_iff.mp hk
    exact ⟨_, _, k, _, hl ▸ by simp, rfl, hs.symm, rfl⟩
  · rintro ⟨w, r, k, sign, hw, rfl, rfl, rfl⟩
    have hlookup : ∀ p ∈ words, words.lookup p.1 = some p.2 := by decide +kernel
    have hsign : Numeral.takeSign (sign.spell ++ r) = (sign, r) := by
      apply Numeral.takeSign_spell
      intro c hc
      have hmem : c.toLower ∈ r.map Char.toLower := List.mem_map_of_mem (List.mem_of_mem_head? hc)
      obtain ⟨-, -, -, hminus, hplus⟩ := letter_of_words hw hmem
      exact ⟨hminus, hplus⟩
    rw [hsign]
    exact ⟨k, hlookup _ hw, rfl⟩

theorem ofPlain?_eq_some_iff : ofPlain? s = some x ↔ Plain s x := by
  unfold ofPlain?
  rw [Option.or_eq_some_iff, ofNumeral?_eq_some_iff, ofWord?_eq_some_iff]
  constructor
  · rintro (⟨n, hs, hd, rfl⟩ | ⟨-, w, r, k, sign, hw, hr, rfl, rfl⟩)
    · exact .numeral hs hd
    · exact .word hw hr sign
  · rintro (⟨hs, hd⟩ | ⟨hw, rfl, sign⟩)
    · exact .inl ⟨_, hs, hd, rfl⟩
    · refine .inr ⟨?_, _, _, _, sign, hw, rfl, rfl, rfl⟩
      -- a numeral has a digit, and a word has none
      rw [Option.eq_none_iff_forall_ne_some]
      intro y hy
      obtain ⟨n, hs, hd, -⟩ := ofNumeral?_eq_some_iff.mp hy
      obtain ⟨c, hc, hdigit⟩ := hs.exists_isDigit hd
      rcases List.mem_append.mp hc with hc | hc
      · cases sign <;> simp [Sign.spell] at hc <;> simp [hc] at hdigit
      · have := (letter_of_words hw (List.mem_map_of_mem hc)).2.2.1
        simp [this] at hdigit

theorem Plain.char (h : Plain s x) : ∀ c ∈ s, isSpace c = false ∧ c ≠ '_' := by
  have hmarks (c : Char) (hc : c ∈ ['+', '-', '.', 'e', 'E']) : isSpace c = false ∧ c ≠ '_' := by
    have hall : (['+', '-', '.', 'e', 'E'].all fun c => !isSpace c && c ≠ '_') = true := by decide
    simpa using List.all_eq_true.mp hall c hc
  have hdigits (c : Char) (hd : c.isDigit) : isSpace c = false ∧ c ≠ '_' := by
    have hrange := Token.toNat_of_isDigit hd
    constructor
    · rw [← Bool.not_eq_true]
      intro hs
      have := Text.toNat_of_isSpace hs
      omega
    · rintro rfl
      revert hd
      decide
  intro c hc
  cases h with
  | numeral hs hd => exact (hs.char c hc).elim (hdigits c) (hmarks c)
  | word hw hs sign =>
    subst hs
    rcases List.mem_append.mp hc with hc | hc
    · apply hmarks
      cases sign <;> simp [Sign.spell] at hc <;> simp [hc]
    · have := letter_of_words hw (List.mem_map_of_mem hc)
      exact ⟨this.1, this.2.1⟩

/-- Plain texts are made of letters, digits, signs and points. -/
theorem Plain.isAlphanum_or (h : Plain s x) (hc : c ∈ s) : c.isAlphanum ∨ c ∈ ['+', '-', '.'] := by
  cases h with
  | numeral hs hd =>
    rcases hs.char c hc with hdigit | hmark
    · exact .inl ((Bool.or_eq_true _ _).mpr (.inr hdigit))
    · simp only [List.mem_cons, List.not_mem_nil, or_false] at hmark ⊢
      obtain h | h | h | rfl | rfl := hmark
      · exact .inr (.inl h)
      · exact .inr (.inr (.inl h))
      · exact .inr (.inr (.inr h))
      · exact .inl rfl
      · exact .inl rfl
  | word hw hs sign =>
    rename_i w r k
    rcases List.mem_append.mp hc with hc | hc
    · right
      cases sign <;> simp [Sign.spell] at hc <;> simp [hc]
    · left
      have hmem : c.toLower ∈ w := hs ▸ List.mem_map_of_mem hc
      have hletters : (words.all fun p => p.1.all Char.isAlphanum) = true := by decide
      rcases toLower_eq_self_or c with hlower | hupper
      · exact List.all_eq_true.mp (List.all_eq_true.mp hletters _ hw) c (hlower ▸ hmem)
      · have hletter : c.isUpper := decide_eq_true
          ⟨UInt32.le_iff_toNat_le.mpr hupper.1, UInt32.le_iff_toNat_le.mpr hupper.2⟩
        show (c.isUpper || c.isLower || c.isDigit) = true
        rw [hletter, Bool.true_or, Bool.true_or]

theorem exists_strip (p : Char → Bool) (s : List Char) :
    ∃ a b, a ++ strip p s ++ b = s ∧ (∀ c ∈ a, p c) ∧ ∀ c ∈ b, p c := by
  have hfront := List.takeWhile_append_dropWhile (p := p) (l := s)
  have hback := List.takeWhile_append_dropWhile (p := p) (l := (s.dropWhile p).reverse)
  refine ⟨s.takeWhile p, ((s.dropWhile p).reverse.takeWhile p).reverse, ?_, ?_, ?_⟩
  · unfold strip
    rw [List.append_assoc, ← List.reverse_append, hback, List.reverse_reverse, hfront]
  · exact fun c hc => List.all_eq_true.mp List.all_takeWhile c hc
  · exact fun c hc => List.all_eq_true.mp List.all_takeWhile c (List.mem_reverse.mp hc)

theorem dropWhile_eq_self {p : Char → Bool} (h : ∀ c ∈ s, p c = false) : s.dropWhile p = s := by
  cases s with
  | nil => rfl
  | cons c s => exact List.dropWhile_cons_of_neg (by simp [h c])

theorem strip_append {p : Char → Bool} {a b : List Char} (ha : ∀ c ∈ a, p c) (hb : ∀ c ∈ b, p c)
    (hs : ∀ c ∈ s, p c = false) : strip p (a ++ s ++ b) = s := by
  have hback : (b.reverse ++ s.reverse).dropWhile p = s.reverse := by
    rw [List.dropWhile_append_of_pos (by simpa using hb), dropWhile_eq_self (by simpa using hs)]
  unfold strip
  rw [List.append_assoc, List.dropWhile_append_of_pos ha]
  cases s with
  | nil =>
    rw [List.nil_append, List.dropWhile_eq_nil_iff.mpr hb]
    rfl
  | cons c s =>
    rw [List.cons_append, List.dropWhile_cons_of_neg (by simp [hs c]), ← List.cons_append,
      List.reverse_append, hback, List.reverse_reverse]

theorem Grouped.eq_filter (h : Grouped s t) : t = s.filter (· ≠ '_') := by
  induction h with
  | last hc => simp [hc]
  | next hc h ih => simp [hc, ih]
  | gap hc h ih => simp [hc, ih]

/-- No two underscores are neighbours. -/
def Apart (s : List Char) : Prop := ('_', '_') ∉ s.zip s.tail

instance (s : List Char) : Decidable (Apart s) := inferInstanceAs (Decidable (¬ _))

theorem apart_cons : Apart (c :: s) ↔ ¬ (c = '_' ∧ s.head? = some '_') ∧ Apart s := by
  cases s with
  | nil => simp [Apart]
  | cons d s =>
    unfold Apart
    simp only [List.tail_cons, List.zip_cons_cons, List.mem_cons, List.head?_cons, Prod.mk.injEq,
      Option.some.injEq, not_or, eq_comm]

theorem Grouped.head? (h : Grouped s t) : ∃ c, c ≠ '_' ∧ s.head? = some c := by
  cases h with
  | last hc => exact ⟨_, hc, rfl⟩
  | next hc => exact ⟨_, hc, rfl⟩
  | gap hc => exact ⟨_, hc, rfl⟩

theorem Grouped.apart (h : Grouped s t) : Apart (s ++ ['_']) := by
  induction h with
  | last hc => exact apart_cons.mpr ⟨fun hcc => hc hcc.1, by decide⟩
  | next hc h ih => exact apart_cons.mpr ⟨fun hcc => hc hcc.1, ih⟩
  | gap hc h ih =>
    obtain ⟨d, hd, hhead⟩ := h.head?
    refine apart_cons.mpr ⟨fun hcc => hc hcc.1, apart_cons.mpr ⟨?_, ih⟩⟩
    simpa [hhead] using hd

theorem exists_grouped (h : Apart (s ++ ['_'])) : ∀ c ≠ '_', ∃ t, Grouped (c :: s) t := by
  induction s with
  | nil => exact fun c hc => ⟨_, .last hc⟩
  | cons d s ih =>
    intro c hc
    obtain ⟨hfirst, hs⟩ := apart_cons.mp h
    by_cases hd : d = '_'
    · subst hd
      obtain ⟨t, ht⟩ := ih hs c hc
      cases ht with
      | last => exact absurd ⟨rfl, rfl⟩ hfirst
      | next _ ht => exact ⟨_, .gap hc ht⟩
      | gap => exact absurd ⟨rfl, rfl⟩ hfirst
    · obtain ⟨t, ht⟩ := ih hs d hd
      exact ⟨_, .next hc ht⟩

theorem ungroup?_eq_some_iff : ungroup? s = some t ↔ Grouped s t := by
  have hunfold : ungroup? s =
      if Apart ('_' :: (s ++ ['_'])) then some (s.filter (· ≠ '_')) else none := by
    unfold ungroup? Apart
    exact (ite_not _ _ _).symm
  rw [hunfold]
  constructor
  · intro h
    split_ifs at h with hs
    obtain ⟨hfirst, hs⟩ := apart_cons.mp hs
    cases s with
    | nil => exact absurd ⟨rfl, rfl⟩ hfirst
    | cons c s =>
      obtain ⟨u, hu⟩ := exists_grouped (apart_cons.mp hs).2 c (by simpa using hfirst)
      rwa [← Option.some.inj h, ← hu.eq_filter]
  · intro h
    obtain ⟨d, hd, hhead⟩ := h.head?
    rw [if_pos, h.eq_filter]
    refine apart_cons.mpr ⟨?_, h.apart⟩
    rw [List.head?_append, hhead]
    simpa using hd

/-- The reader finds the numbers that texts denote. -/
theorem read?_eq_some_iff : read? s = some x ↔ Denotes s x := by
  unfold read?
  rw [Option.or_eq_some_iff, Option.bind_eq_some_iff, ofPlain?_eq_some_iff]
  simp only [ofPlain?_eq_some_iff, ungroup?_eq_some_iff]
  obtain ⟨a, b, hs, ha, hb⟩ := exists_strip isSpace s
  constructor
  · rintro (h | ⟨-, t, hg, h⟩)
    · have hd := Denotes.spaced ha hb h
      rwa [hs] at hd
    · exact .grouped hg h
  · intro h
    cases h with
    | spaced ha' hb' h =>
      rw [strip_append ha' hb' fun c hc => (h.char c hc).1]
      exact .inl h
    | grouped hg h =>
      rename_i t
      by_cases hu : '_' ∈ strip isSpace s
      · refine .inr ⟨?_, _, hg, h⟩
        rw [Option.eq_none_iff_forall_ne_some]
        exact fun y hy => (Plain.char (ofPlain?_eq_some_iff.mp hy) _ hu).2 rfl
      · have hmem : ∀ c ∈ s, c ≠ '_' := by
          rintro c hc rfl
          rw [← hs, List.mem_append, List.mem_append] at hc
          rcases hc with (hc | hc) | hc
          · exact absurd (ha _ hc) (by decide)
          · exact hu hc
          · exact absurd (hb _ hc) (by decide)
        have hts : t = s := by
          rw [hg.eq_filter, List.filter_eq_self]
          simpa using hmem
        rw [hts] at h
        have hstrip : strip isSpace ([] ++ s ++ []) = s :=
          strip_append (by simp) (by simp) fun c hc => (h.char c hc).1
        rw [List.nil_append, List.append_nil] at hstrip
        rw [hstrip]
        exact .inl h

theorem Plain.read?_eq (h : Plain s x) : read? s = some x := by
  have hspaced := Denotes.spaced (a := []) (b := []) (by simp) (by simp) h
  rw [List.nil_append, List.append_nil] at hspaced
  exact read?_eq_some_iff.mpr hspaced

theorem Plain.unique (h : Plain s x) (h' : Plain s y) : x = y :=
  Option.some.inj ((ofPlain?_eq_some_iff.mpr h).symm.trans (ofPlain?_eq_some_iff.mpr h'))

end FloatText
end DecimalComma
