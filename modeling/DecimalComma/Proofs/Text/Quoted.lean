import DecimalComma.Proofs.Json.Scalar
import DecimalComma.Text.Quoted

/-! Quoted text tells the text. A character is read back from what is written for it, whatever
follows, and nothing that is written for one begins with the closing quote. No hidden character is
written, so no line ends inside. -/
namespace DecimalComma.Text

/-- The character whose code point so many hexadecimal digits write. -/
def takeCodePoint (width : Nat) (s : List Char) : Option (Char × List Char) :=
  (Json.takeHex width 0 s).map fun p => (Char.ofNat p.1, p.2)

/-- The character that the letter behind a backslash announces. -/
def takeEscaped (letter : Char) (s : List Char) : Option (Char × List Char) :=
  if letter = 'n' then some ('\n', s)
  else if letter = 'r' then some ('\r', s)
  else if letter = 't' then some ('\t', s)
  else if letter = 'x' then takeCodePoint 2 s
  else if letter = 'u' then takeCodePoint 4 s
  else if letter = 'U' then takeCodePoint 8 s
  else some (letter, s)

/-- The first character of a text between quotes. -/
def unescape? : List Char → Option (Char × List Char)
  | '\\' :: letter :: s => takeEscaped letter s
  | c :: s => if c = '\\' then none else some (c, s)
  | [] => none

variable {q c : Char} {cs ds s t : List Char}

theorem takeCodePoint_hex {width : Nat} (hc : c.toNat < 16 ^ width) (s : List Char) :
    takeCodePoint width (hex width c.toNat ++ s) = some (c, s) := by
  have hmod : 0 * 16 ^ width + c.toNat % 16 ^ width = c.toNat := by
    rw [Nat.zero_mul, Nat.zero_add, Nat.mod_eq_of_lt hc]
  unfold takeCodePoint
  rw [Json.takeHex_hex, hmod, Option.map_some, Char.ofNat_toNat]

theorem unescape?_escapeHidden (c : Char) (s : List Char) :
    unescape? (escapeHidden c ++ s) = some (c, s) := by
  have h8 : c.toNat < 16 ^ 8 := c.val.toNat_lt
  unfold escapeHidden
  dsimp only
  split_ifs with h2 h4
  · exact takeCodePoint_hex h2 s
  · exact takeCodePoint_hex h4 s
  · exact takeCodePoint_hex h8 s

/-- The quotes and the backslash announce themselves. -/
theorem takeEscaped_self (hc : c = '\'' ∨ c = '"' ∨ c = '\\') (s : List Char) :
    takeEscaped c s = some (c, s) := by
  rcases hc with rfl | rfl | rfl <;> rfl

/-- A character is read back from what is written for it. -/
theorem unescape?_escape (hq : q = '\'' ∨ q = '"') (c : Char) (s : List Char) :
    unescape? (escape q c ++ s) = some (c, s) := by
  unfold escape
  split_ifs with hself hn hr ht hp
  · exact takeEscaped_self (by grind) s
  · rw [hn]
    rfl
  · rw [hr]
    rfl
  · rw [ht]
    rfl
  · have hback : c ≠ '\\' := fun h => hself (.inr h)
    rw [List.singleton_append, unescape?, if_neg hback]
    exact fun _ _ h _ => hback h
  · exact unescape?_escapeHidden c s

/-- What is written for a character does not begin with the quote. -/
theorem exists_escape_cons (hq : q = '\'' ∨ q = '"') (c : Char) :
    ∃ a r, escape q c = a :: r ∧ a ≠ q := by
  have hback : '\\' ≠ q := by rcases hq with rfl | rfl <;> decide
  unfold escape escapeHidden
  dsimp only
  split_ifs with hself
  any_goals exact ⟨'\\', _, rfl, hback⟩
  exact ⟨c, [], rfl, fun h => hself (.inl h)⟩

/-- What is written for the characters of a text ends where the quote comes. -/
theorem flatMap_escape_append_inj (hq : q = '\'' ∨ q = '"')
    (h : cs.flatMap (escape q) ++ q :: s = ds.flatMap (escape q) ++ q :: t) : cs = ds ∧ s = t := by
  induction cs generalizing ds with
  | nil => cases ds with
    | nil => exact ⟨rfl, (List.cons.inj h).2⟩
    | cons d ds =>
      obtain ⟨a, r, ha, hne⟩ := exists_escape_cons hq d
      rw [List.flatMap_cons, ha] at h
      exact absurd (List.cons.inj h).1.symm hne
  | cons c cs ih => cases ds with
    | nil =>
      obtain ⟨a, r, ha, hne⟩ := exists_escape_cons hq c
      rw [List.flatMap_cons, ha] at h
      exact absurd (List.cons.inj h).1 hne
    | cons d ds =>
      rw [List.flatMap_cons, List.flatMap_cons, List.append_assoc, List.append_assoc] at h
      have hread := congrArg unescape? h
      rw [unescape?_escape hq, unescape?_escape hq, Option.some.injEq, Prod.mk.injEq] at hread
      obtain ⟨rfl, hrest⟩ := hread
      obtain ⟨rfl, hst⟩ := ih hrest
      exact ⟨rfl, hst⟩

theorem quoteFor_eq_or (cs : List Char) : quoteFor cs = '\'' ∨ quoteFor cs = '"' := by
  unfold quoteFor
  split_ifs
  · exact .inr rfl
  · exact .inl rfl

theorem toList_quoted_append (x : String) (s : List Char) : (quoted x).toList ++ s =
    quoteFor x.toList :: (x.toList.flatMap (escape (quoteFor x.toList)) ++
      quoteFor x.toList :: s) := by
  unfold quoted
  simp

/-- Quoted text, whatever follows it, tells the text. -/
theorem quoted_append_inj {x y : String} (h : (quoted x).toList ++ s = (quoted y).toList ++ t) :
    x = y ∧ s = t := by
  rw [toList_quoted_append, toList_quoted_append] at h
  obtain ⟨hquote, hrest⟩ := List.cons.inj h
  rw [← hquote] at hrest
  obtain ⟨hxy, hst⟩ := flatMap_escape_append_inj (quoteFor_eq_or _) hrest
  exact ⟨String.toList_inj.mp hxy, hst⟩

theorem isPrintable_of_ascii (h : 0x20 ≤ c.toNat ∧ c.toNat ≤ 0x7E) : isPrintable c := by
  have hall :
      ((hiddenRanges ++ unassignedRanges).all fun r => r.2 < 0x20 || 0x7E < r.1) = true := by
    decide +kernel
  unfold isPrintable
  rw [Bool.not_eq_true', List.any_eq_false]
  intro r hr
  have hr' := List.all_eq_true.mp hall r hr
  simp only [Bool.or_eq_true, Bool.and_eq_true, decide_eq_true_eq] at hr' ⊢
  omega

theorem isPrintable_of_mem_hex {width n : Nat} (h : c ∈ hex width n) : isPrintable c := by
  have hdigit : ∀ d < 16, 0x20 ≤ (Nat.digitChar d).toNat ∧ (Nat.digitChar d).toNat ≤ 0x7E := by
    decide
  obtain ⟨i, -, rfl⟩ := List.mem_map.mp h
  exact isPrintable_of_ascii (hdigit _ (Nat.mod_lt _ (by norm_num)))

/-- The marks of quoted text: quotes, and what may stand behind a backslash. -/
def quotationMarks : List Char := ['\'', '"', '\\', 'n', 'r', 't', 'x', 'u', 'U']

theorem isPrintable_of_mem_marks (h : c ∈ quotationMarks) : isPrintable c := by
  have hall : (quotationMarks.all fun c => 0x20 ≤ c.toNat && c.toNat ≤ 0x7E) = true := by decide
  have hc := List.all_eq_true.mp hall c h
  rw [Bool.and_eq_true, decide_eq_true_eq, decide_eq_true_eq] at hc
  exact isPrintable_of_ascii hc

theorem isPrintable_of_mem_escapeHidden {a : Char} (h : a ∈ escapeHidden c) : isPrintable a := by
  have hmark (letter : Char) (width : Nat) (hl : letter ∈ quotationMarks)
      (ha : a ∈ '\\' :: letter :: hex width c.toNat) : isPrintable a := by
    rcases List.mem_cons.mp ha with rfl | ha
    · exact isPrintable_of_mem_marks (by decide)
    · rcases List.mem_cons.mp ha with rfl | ha
      · exact isPrintable_of_mem_marks hl
      · exact isPrintable_of_mem_hex ha
  unfold escapeHidden at h
  dsimp only at h
  split_ifs at h
  · exact hmark 'x' 2 (by decide) h
  · exact hmark 'u' 4 (by decide) h
  · exact hmark 'U' 8 (by decide) h

theorem isPrintable_of_mem_escape (hq : q = '\'' ∨ q = '"') {a : Char} (h : a ∈ escape q c) :
    isPrintable a := by
  have hpair (letter : Char) (hl : letter ∈ quotationMarks) (ha : a ∈ ['\\', letter]) :
      isPrintable a := by
    apply isPrintable_of_mem_marks
    rcases List.mem_pair.mp ha with rfl | rfl
    · decide
    · exact hl
  unfold escape at h
  split_ifs at h with hself _ _ _ hp
  · refine hpair c ?_ h
    rcases hself with rfl | rfl
    · rcases hq with rfl | rfl <;> decide
    · decide
  · exact hpair 'n' (by decide) h
  · exact hpair 'r' (by decide) h
  · exact hpair 't' (by decide) h
  · rwa [List.mem_singleton.mp h]
  · exact isPrintable_of_mem_escapeHidden h

/-- Nothing hidden is written in quoted text. -/
theorem isPrintable_of_mem_quoted {x : String} (h : c ∈ (quoted x).toList) : isPrintable c := by
  have hq := quoteFor_eq_or x.toList
  have hquote : isPrintable (quoteFor x.toList) := by
    apply isPrintable_of_mem_marks
    rcases hq with hq | hq <;> rw [hq] <;> decide
  unfold quoted at h
  simp only [String.toList_ofList, List.mem_append, List.mem_cons, List.mem_flatMap,
    List.not_mem_nil, or_false] at h
  rcases h with (rfl | ⟨a, -, ha⟩) | rfl
  · exact hquote
  · exact isPrintable_of_mem_escape hq ha
  · exact hquote

/-- The characters that a line may end with. -/
def lineBreaks : List Char :=
  ['\n', '\x0B', '\x0C', '\r', '\x1C', '\x1D', '\x1E', '\u0085', '\u2028', '\u2029']

theorem notMem_lineBreaks (h : isPrintable c) : c ∉ lineBreaks := by
  have hall : (lineBreaks.all fun c => !isPrintable c) = true := by decide +kernel
  intro hc
  have hc' := List.all_eq_true.mp hall c hc
  simp [h] at hc'

end DecimalComma.Text
