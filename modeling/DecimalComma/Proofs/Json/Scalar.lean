import DecimalComma.Json.Writer
import DecimalComma.Proofs.Decimal.Canonical
import DecimalComma.Proofs.Json.Outcome

/-! Strings and finite numbers in JSON texts are read back as they were written. -/
namespace DecimalComma.Json

variable {rest : List Char}

theorem hexValue?_digitChar : ∀ d < 16, Text.hexValue? (Nat.digitChar d) = some d := by decide

theorem hex_succ (k n : Nat) :
    Text.hex (k + 1) n = Nat.digitChar (n / 16 ^ k % 16) :: Text.hex k n := by
  have hpow : 2 ^ (4 * k) = 16 ^ k := by rw [pow_mul]; norm_num
  unfold Text.hex
  rw [List.range_succ, List.reverse_append, List.reverse_singleton, List.singleton_append,
    List.map_cons, Nat.shiftRight_eq_div_pow, hpow]

/-- The digits written are read behind a number `m` that was read before them. -/
theorem takeHex_hex (k m n : Nat) (rest : List Char) :
    takeHex k m (Text.hex k n ++ rest) = some (m * 16 ^ k + n % 16 ^ k, rest) := by
  induction k generalizing m with
  | zero => simp [Text.hex, takeHex, Nat.mod_one]
  | succ k ih =>
    have hd := hexValue?_digitChar (n / 16 ^ k % 16) (Nat.mod_lt _ (by norm_num))
    rw [hex_succ, List.cons_append, takeHex, hd]
    show takeHex k (m * 16 + n / 16 ^ k % 16) (Text.hex k n ++ rest) = _
    rw [ih, Nat.mod_pow_succ]
    congr 2
    ring

theorem takeUnicode_hex {c : Char} (hc : c.toNat < 0xD800) (rest : List Char) :
    takeUnicode (Text.hex 4 c.toNat ++ rest) = some (c, rest) := by
  have hmod : 0 * 16 ^ 4 + c.toNat % 16 ^ 4 = c.toNat := by omega
  unfold takeUnicode
  rw [takeHex_hex, hmod]
  show (if _ then _ else _) = _
  rw [if_pos (.inl hc), Char.ofNat_toNat]

/-- A letter behind a backslash stands for what is written with it. -/
theorem lookup_escapes : ∀ p ∈ escapes, p.1 ≠ 'u' ∧ escapes.lookup p.1 = some p.2 := by decide

theorem takeChar_escape (c : Char) (rest : List Char) :
    takeChar (escape c ++ rest) = some (c, rest) := by
  unfold escape
  split
  · rename_i e d hfind
    have hd := List.find?_some hfind
    simp only [Bool.and_eq_true, decide_eq_true_eq] at hd
    obtain ⟨hu, hlookup⟩ := lookup_escapes _ (List.mem_of_find?_eq_some hfind)
    show takeChar ('\\' :: e :: rest) = _
    simp only [takeChar, ne_eq, not_true_eq_false, if_false, hu, hlookup, Option.map_some, hd.1]
  · rename_i hfind
    have hplain := List.find?_eq_none.mp hfind
    split_ifs with hcontrol
    · show takeChar ('\\' :: 'u' :: (Text.hex 4 c.toNat ++ rest)) = _
      simp only [takeChar, ne_eq, not_true_eq_false, if_false, if_true]
      exact takeUnicode_hex (by omega) rest
    · have hback : c ≠ '\\' := by
        rintro rfl
        exact hplain ('\\', '\\') (by decide) (by decide)
      show takeChar (c :: rest) = _
      simp only [takeChar, ne_eq, hback, not_false_eq_true, if_true, hcontrol, if_false]

theorem exists_escape (c : Char) : ∃ a t, escape c = a :: t ∧ a ≠ '"' := by
  unfold escape
  split
  · exact ⟨_, _, rfl, by decide⟩
  · rename_i hfind
    split_ifs with hcontrol
    · exact ⟨_, _, rfl, by decide⟩
    · refine ⟨c, [], rfl, ?_⟩
      rintro rfl
      exact List.find?_eq_none.mp hfind ('"', '"') (by decide) (by decide)

/-- The characters of a string are read up to its closing quote. -/
theorem takeString_escape (cs rest : List Char) :
    outcome (takeString (cs.flatMap escape ++ '"' :: rest)) = some (cs, rest) := by
  induction cs with
  | nil => exact takeString_eq '"' rest
  | cons c cs ih =>
    have hc := takeChar_escape c (cs.flatMap escape ++ '"' :: rest)
    obtain ⟨a, t, he, ha⟩ := exists_escape c
    rw [List.flatMap_cons, List.append_assoc]
    rw [he, List.cons_append] at hc ⊢
    rw [takeString_eq, if_neg ha]
    simp only [hc, Option.bind_some, ih, Option.map_some]

theorem takeAtom_word {c : Char} {w : List Char} {j : Json}
    (hw : (words.find? fun p => p.1.isPrefixOf (c :: w ++ rest)) = some (c :: w, j)) :
    outcome (takeAtom (c :: w ++ rest)) = some (j, rest) := by
  have hdrop : (c :: w ++ rest).drop (c :: w).length = rest := List.drop_left
  have hlt : rest.length < (c :: w ++ rest).length := by
    rw [List.length_append, List.length_cons]
    omega
  unfold takeAtom
  simp only [hw, hdrop]
  rw [dif_pos hlt]
  rfl

theorem words_noDigit : ∀ p ∈ words, 2 ≤ p.1.length ∧ p.1.any Char.isDigit = false := by decide

/-- No word stands where a numeral does: of the first two characters one is a digit. -/
theorem find?_words {n : Numeral} {l : Layout} (hn : n.WellFormed) (rest : List Char) :
    (words.find? fun p => p.1.isPrefixOf (n.spell l ++ rest)) = none := by
  rw [List.find?_eq_none]
  intro p hp hprefix
  obtain ⟨hlen, hany⟩ := words_noDigit p hp
  have hdigit := List.any_eq_false.mp hany
  obtain ⟨t, ht⟩ := List.isPrefixOf_iff_prefix.mp hprefix
  obtain ⟨d, ds, hw, hd⟩ := hn.whole.exists_cons
  -- a sign is one character at most, and a word has two
  match hword : p.1 with
  | [] => simp [hword] at hlen
  | [_] => simp [hword] at hlen
  | a :: b :: w =>
    rw [hword] at ht hdigit
    have ha := hdigit a (by simp)
    have hb := hdigit b (by simp)
    unfold Numeral.spell at ht
    rw [hw] at ht
    cases hs : n.sign <;> rw [hs] at ht <;> injection ht with h₁ h₂
    · exact ha (h₁ ▸ hd)
    · injection h₂ with h₂
      exact hb (h₂ ▸ hd)
    · injection h₂ with h₂
      exact hb (h₂ ▸ hd)

theorem takeAtom_numeral {n : Numeral} {l : Layout} (hn : n.WellFormed) (hnum : isNumber n = true)
    (hr : Numeral.Ends rest) :
    outcome (takeAtom (n.spell l ++ rest)) = some (.number (numberOf n), rest) := by
  have hpos := List.length_pos_of_ne_nil hn.whole.ne_nil
  have hlt : rest.length < (n.spell l ++ rest).length := by
    unfold Numeral.spell
    simp only [List.length_append]
    omega
  unfold takeAtom
  simp only [find?_words hn, Numeral.take_spell hn hr, hnum, if_true]
  rw [dif_pos hlt]
  rfl

/-- The numeral of a finite number. -/
theorem exists_numeral {x : Float} (hx : Double.isFinite x = true) :
    ∃ n : Numeral, n.WellFormed ∧ isNumber n = true ∧ numberOf n = x ∧
      (writeNumber x).toList = n.spell .json := by
  obtain ⟨n, hn⟩ := Numeral.exists_represents (l := .json) rfl rfl
    (Numeral.signOf (Double.isNegative x)) (.shortest (Double.ordinal x))
  have hstrict := hn.isStrict (Layout.signOf_ne_plus _)
  refine ⟨n, hn.wellFormed, ?_, ?_, ?_⟩
  · have hlen : n.whole.length ≤ 16 := by
      rcases hn.whole with h | ⟨-, h, hp⟩
      · omega
      · have hhigh : Layout.json.highest = 16 := rfl
        omega
    have hwidth : n.whole.length + (if n.isNegative then 1 else 0) ≤ numberWidth := by
      unfold numberWidth
      split_ifs <;> omega
    unfold isNumber
    rw [hstrict, Bool.true_and, decide_eq_true hwidth]
  · unfold numberOf
    rw [hn.isIntegral, Bool.false_and, if_neg Bool.false_ne_true]
    exact Numeral.toDouble_of_toRat hx hn.sign hn.toRat
  · rw [hn.spell, ← Layout.toList_render hx, writeNumber, if_pos hx]

/-- The characters with which no number begins, although a document may begin or end so. -/
def marks : List Char := '"' :: '[' :: ']' :: '\x7b' :: blanks

theorem exists_writeNumber {x : Float} (hx : Double.isFinite x = true) :
    ∃ c t, (writeNumber x).toList = c :: t ∧ c ∉ marks := by
  obtain ⟨n, hn, -, -, ht⟩ := exists_numeral hx
  obtain ⟨c, t, hs, hc⟩ := hn.exists_spell .json
  refine ⟨c, t, ht.trans hs, ?_⟩
  rcases hc with rfl | rfl | hc
  · decide
  · decide
  · have hany : marks.any Char.isDigit = false := by decide
    exact fun h => List.any_eq_false.mp hany c h hc

theorem takeAtom_writeNumber {x : Float} (hx : Double.isFinite x = true) (hr : Numeral.Ends rest) :
    outcome (takeAtom ((writeNumber x).toList ++ rest)) = some (.number x, rest) := by
  obtain ⟨n, hn, hnum, hval, htext⟩ := exists_numeral hx
  rw [htext, ← hval]
  exact takeAtom_numeral hn hnum hr

end DecimalComma.Json
