import DecimalComma.Token.Basic
import Mathlib.Data.List.TakeWhile

/-! Lexemes, the texts of tokens, and how far one reaches: a number goes on as long as the text behind
it continues it, and that is as far as any lexeme goes. -/
namespace DecimalComma.Token

/-- A run of digits, at least one. -/
structure IsDigits (w : List Char) : Prop where
  ne_nil : w ≠ []
  isDigit : ∀ c ∈ w, c.isDigit

/-- The texts of tokens, by kind: `[0-9]+(,[0-9]+)?`, `[-+*/^]` and `[()]`. -/
inductive Lexeme : TokenKind → List Char → Prop where
  | whole {ds : List Char} (hd : IsDigits ds) : Lexeme .number ds
  | fraction {ds fs : List Char} (hd : IsDigits ds) (hf : IsDigits fs) :
      Lexeme .number (ds ++ ',' :: fs)
  | operator {c : Char} (h : c ∈ ['+', '-', '*', '/', '^']) : Lexeme .operator [c]
  | parenthesis {c : Char} (h : c ∈ ['(', ')']) : Lexeme .parentheses [c]

/-- The characters that belong to tokens wherever they stand. -/
def Marks (c : Char) : Prop :=
  c.isDigit ∨ c ∈ ['+', '-', '*', '/', '^'] ∨ c ∈ ['(', ')']

instance (c : Char) : Decidable (Marks c) := by
  unfold Marks
  infer_instance

/-- The text behind a number does not continue it, neither with a digit nor with a fraction. -/
structure Ends (w rest : List Char) : Prop where
  digit : ∀ c r, rest = c :: r → ¬ c.isDigit
  fraction : ',' ∉ w → ∀ c r, rest = ',' :: c :: r → ¬ c.isDigit

/-- No lexeme at the start of `w ++ rest` goes beyond `w`. -/
def Longest (w rest : List Char) : Prop :=
  ∀ k v, Lexeme k v → v <+: w ++ rest → v.length ≤ w.length

theorem toNat_of_isDigit {c : Char} (h : c.isDigit) : 0x30 ≤ c.toNat ∧ c.toNat ≤ 0x39 :=
  Char.isDigit_iff_toNat.mp h

theorem isDigits_singleton {c : Char} (h : c.isDigit) : IsDigits [c] :=
  ⟨by simp, by simpa using h⟩

theorem isDigits_append {u v : List Char} (hne : u ++ v ≠ []) (hu : ∀ c ∈ u, c.isDigit)
    (hv : ∀ c ∈ v, c.isDigit) : IsDigits (u ++ v) := by
  refine ⟨hne, ?_⟩
  intro c hc
  rcases List.mem_append.mp hc with hc | hc
  · exact hu c hc
  · exact hv c hc

theorem IsDigits.snoc {w : List Char} (hw : IsDigits w) {c : Char} (hc : c.isDigit) :
    IsDigits (w ++ [c]) :=
  isDigits_append (by simp) hw.isDigit (isDigits_singleton hc).isDigit

theorem exists_digits_append (r : List Char) : ∃ ds t, r = ds ++ t ∧ (∀ c ∈ ds, c.isDigit) ∧
    ∀ c u, t = c :: u → ¬ c.isDigit := by
  refine ⟨r.takeWhile Char.isDigit, r.dropWhile Char.isDigit, ?_, ?_, ?_⟩
  · exact List.takeWhile_append_dropWhile.symm
  · intro c hc
    exact List.all_eq_true.mp List.all_takeWhile c hc
  · intro c u h
    have := List.head?_dropWhile_not Char.isDigit r
    rw [h] at this
    simpa using this

theorem isDigits_cons {c : Char} {ds : List Char} (hc : c.isDigit) (hd : ∀ a ∈ ds, a.isDigit) :
    IsDigits (c :: ds) :=
  isDigits_append (by simp) (isDigits_singleton hc).isDigit hd

theorem IsDigits.comma_notMem {w : List Char} (h : IsDigits w) : ',' ∉ w := by
  intro hc
  have := h.isDigit _ hc
  simp at this

theorem IsDigits.exists_cons {w : List Char} (h : IsDigits w) :
    ∃ c r, w = c :: r ∧ c.isDigit := by
  obtain ⟨c, r, rfl⟩ := List.exists_cons_of_ne_nil h.ne_nil
  exact ⟨c, r, rfl, h.isDigit c (by simp)⟩

/-- What a condition holds for is taken up to the first character that it fails for. -/
theorem takeWhile_append_of_head {p : Char → Bool} {w rest : List Char} (hw : ∀ c ∈ w, p c)
    (hr : ∀ c ∈ rest.head?, ¬ p c) : (w ++ rest).takeWhile p = w := by
  rw [List.takeWhile_append_of_pos hw]
  cases rest with
  | nil => exact List.append_nil w
  | cons c r => rw [List.takeWhile_cons_of_neg (hr c rfl), List.append_nil]

theorem IsDigits.takeWhile_append {w rest : List Char} (h : IsDigits w)
    (hr : ∀ c r, rest = c :: r → ¬ c.isDigit) : (w ++ rest).takeWhile Char.isDigit = w := by
  apply takeWhile_append_of_head h.isDigit
  intro c hc
  obtain ⟨r, hrest⟩ := List.head?_eq_some_iff.mp hc
  exact hr c r hrest

theorem IsDigits.takeWhile_comma {w : List Char} (h : IsDigits w) (rest : List Char) :
    (w ++ ',' :: rest).takeWhile Char.isDigit = w := by
  apply h.takeWhile_append
  intro c r hc
  rw [List.cons.injEq] at hc
  simp [← hc.1]

theorem IsDigits.length_le_of_prefix {v w : List Char} (hv : IsDigits v) (h : v <+: w) :
    v.length ≤ (w.takeWhile Char.isDigit).length := by
  obtain ⟨r, rfl⟩ := h
  rw [List.takeWhile_append_of_pos hv.isDigit]
  simp

/-- The first character tells the kind, and operators and parentheses end with it. -/
theorem Lexeme.exists_cons {k : TokenKind} {w : List Char} (h : Lexeme k w) :
    ∃ c r, w = c :: r ∧ (c.isDigit ∧ k = .number ∨
      c ∈ ['+', '-', '*', '/', '^'] ∧ k = .operator ∧ r = [] ∨
      c ∈ ['(', ')'] ∧ k = .parentheses ∧ r = []) := by
  cases h with
  | whole hd =>
    obtain ⟨c, r, rfl, hc⟩ := hd.exists_cons
    exact ⟨c, r, rfl, .inl ⟨hc, rfl⟩⟩
  | fraction hd hf =>
    obtain ⟨c, r, rfl, hc⟩ := hd.exists_cons
    exact ⟨c, _, rfl, .inl ⟨hc, rfl⟩⟩
  | operator h => exact ⟨_, [], rfl, .inr (.inl ⟨h, rfl, rfl⟩)⟩
  | parenthesis h => exact ⟨_, [], rfl, .inr (.inr ⟨h, rfl, rfl⟩)⟩

theorem not_isDigit_of_operator {c : Char} (h : c ∈ ['+', '-', '*', '/', '^']) : ¬ c.isDigit := by
  simp only [List.mem_cons, List.not_mem_nil, or_false] at h
  rcases h with rfl | rfl | rfl | rfl | rfl <;> decide

theorem not_isDigit_of_parenthesis {c : Char} (h : c ∈ ['(', ')']) : ¬ c.isDigit := by
  simp only [List.mem_cons, List.not_mem_nil, or_false] at h
  rcases h with rfl | rfl <;> decide

theorem notMem_operators_of_parenthesis {c : Char} (h : c ∈ ['(', ')']) :
    c ∉ ['+', '-', '*', '/', '^'] := by
  simp only [List.mem_cons, List.not_mem_nil, or_false] at h
  rcases h with rfl | rfl <;> decide

theorem Lexeme.length_pos {k : TokenKind} {w : List Char} (h : Lexeme k w) : 0 < w.length := by
  obtain ⟨c, r, rfl, -⟩ := h.exists_cons
  simp

theorem Lexeme.marks {k : TokenKind} {c : Char} {r : List Char} (h : Lexeme k (c :: r)) :
    Marks c := by
  obtain ⟨_, _, hw, hc⟩ := h.exists_cons
  obtain ⟨rfl, rfl⟩ := List.cons.inj hw
  rcases hc with ⟨hc, -⟩ | ⟨hc, -⟩ | ⟨hc, -⟩
  · exact .inl hc
  · exact .inr (.inl hc)
  · exact .inr (.inr hc)

theorem Lexeme.kind_unique {k l : TokenKind} {c : Char} {r s : List Char}
    (h : Lexeme k (c :: r)) (h' : Lexeme l (c :: s)) : k = l := by
  obtain ⟨_, _, hw, hc⟩ := h.exists_cons
  obtain ⟨rfl, rfl⟩ := List.cons.inj hw
  obtain ⟨_, _, hw', hc'⟩ := h'.exists_cons
  obtain ⟨rfl, rfl⟩ := List.cons.inj hw'
  rcases hc with ⟨hc, rfl⟩ | ⟨hc, rfl, -⟩ | ⟨hc, rfl, -⟩ <;>
    rcases hc' with ⟨hc', rfl⟩ | ⟨hc', rfl, -⟩ | ⟨hc', rfl, -⟩
  · rfl
  · exact absurd hc (not_isDigit_of_operator hc')
  · exact absurd hc (not_isDigit_of_parenthesis hc')
  · exact absurd hc' (not_isDigit_of_operator hc)
  · rfl
  · exact absurd hc (notMem_operators_of_parenthesis hc')
  · exact absurd hc' (not_isDigit_of_parenthesis hc)
  · exact absurd hc' (notMem_operators_of_parenthesis hc)
  · rfl

theorem ofChar?_eq_some {c : Char} {k : TokenKind} (h : TokenKind.ofChar? c = some k) :
    Lexeme k [c] := by
  unfold TokenKind.ofChar? at h
  split_ifs at h with ho hp
  · cases h
    exact .operator ho
  · cases h
    exact .parenthesis hp

theorem not_marks_of_ofChar?_eq_none {c : Char} (hd : ¬ c.isDigit)
    (h : TokenKind.ofChar? c = none) : ¬ Marks c := by
  unfold TokenKind.ofChar? at h
  split_ifs at h with ho hp
  intro hx
  rcases hx with hc | hc | hc
  · exact hd hc
  · exact ho hc
  · exact hp hc

/-- Operators and parentheses are never part of something longer. -/
theorem longest_singleton {k : TokenKind} {c : Char} (h : Lexeme k [c]) (hk : k ≠ .number)
    (rest : List Char) : Longest [c] rest := by
  intro l v hv hp
  obtain ⟨a, r, rfl, ha⟩ := hv.exists_cons
  obtain rfl : a = c := by simpa using (List.cons_prefix_cons.mp hp).1
  rcases ha with ⟨-, rfl⟩ | ⟨-, -, rfl⟩ | ⟨-, -, rfl⟩
  · exact absurd (h.kind_unique hv) hk
  · exact Nat.le_refl _
  · exact Nat.le_refl _

theorem longest_of_ends {w rest : List Char} (h : Lexeme .number w) (he : Ends w rest) :
    Longest w rest := by
  intro k v hv hp
  obtain ⟨c, r, rfl, hc⟩ := h.exists_cons
  obtain ⟨a, s, rfl, -⟩ := hv.exists_cons
  obtain rfl : a = c := (List.cons_prefix_cons.mp hp).1
  obtain rfl := hv.kind_unique h
  generalize a :: r = w at *
  generalize a :: s = v at *
  cases h with
  | whole hd =>
    have hw := hd.takeWhile_append he.digit
    cases hv with
    | whole hd' =>
      have := hd'.length_le_of_prefix hp
      rwa [hw] at this
    | fraction hd' hf' =>
      -- the fraction would stand right behind the whole number
      rename_i ds' fs'
      obtain ⟨t, ht⟩ := hp
      rw [List.append_assoc, List.cons_append] at ht
      have hd'' := hd'.takeWhile_comma (fs' ++ t)
      rw [ht, hw] at hd''
      obtain ⟨f, fs, rfl, hf⟩ := hf'.exists_cons
      subst hd''
      exact absurd hf (he.fraction hd.comma_notMem f _ (List.append_cancel_left ht).symm)
  | fraction hd hf =>
    rename_i ds fs
    have hw : (ds ++ ',' :: fs ++ rest).takeWhile Char.isDigit = ds := by
      rw [List.append_assoc]
      exact hd.takeWhile_comma _
    cases hv with
    | whole hd' =>
      have := hd'.length_le_of_prefix hp
      rw [hw] at this
      simp only [List.length_append]
      omega
    | fraction hd' hf' =>
      rename_i ds' fs'
      obtain ⟨t, ht⟩ := hp
      have hd'' := hd'.takeWhile_comma (fs' ++ t)
      rw [← List.cons_append, ← List.append_assoc, ht, hw] at hd''
      subst hd''
      simp only [List.append_assoc, List.cons_append, List.append_cancel_left_eq,
        List.cons.injEq, true_and] at ht
      have := hf'.length_le_of_prefix ⟨t, ht⟩
      rw [hf.takeWhile_append he.digit] at this
      simpa using this

theorem Longest.ends {w rest : List Char} (h : Lexeme .number w) (hl : Longest w rest) :
    Ends w rest := by
  constructor
  · intro c r hr hc
    subst hr
    have hv : Lexeme .number (w ++ [c]) := by
      cases h with
      | whole hd => exact .whole (hd.snoc hc)
      | fraction hd hf =>
        rw [List.append_assoc]
        exact .fraction hd (hf.snoc hc)
    have := hl _ _ hv ⟨r, by simp⟩
    rw [List.length_append, List.length_singleton] at this
    omega
  · intro hw c r hr hc
    subst hr
    cases h with
    | whole hd =>
      have := hl _ _ (.fraction hd (isDigits_singleton hc)) ⟨r, by simp⟩
      rw [List.length_append, List.length_cons] at this
      omega
    | fraction hd hf => simp at hw

theorem Longest.unique {k l : TokenKind} {w v r s : List Char} (hw : Lexeme k w)
    (hv : Lexeme l v) (lw : Longest w r) (lv : Longest v s) (h : w ++ r = v ++ s) :
    k = l ∧ w = v ∧ r = s := by
  have h1 : v.length ≤ w.length := lw _ _ hv (by rw [h]; exact List.prefix_append v s)
  have h2 : w.length ≤ v.length := lv _ _ hw (by rw [← h]; exact List.prefix_append w r)
  obtain ⟨rfl, rfl⟩ := List.append_inj h (by omega)
  obtain ⟨c, t, rfl, -⟩ := hw.exists_cons
  exact ⟨hw.kind_unique hv, rfl, rfl⟩

/-- The decimal that the text of a number denotes. -/
def decimalOf (w : List Char) : Decimal := decimal ⟨String.ofList w, 0, .number⟩

theorem decimalOf_eq (w : List Char) : decimalOf w =
    .ofParts (w.takeWhile (· ≠ ',')) ((w.dropWhile (· ≠ ',')).drop 1) 0 := by
  unfold decimalOf decimal
  rw [String.toList_ofList]
  rfl

theorem IsDigits.ne_comma {ds : List Char} (h : IsDigits ds) :
    ∀ c ∈ ds, decide (c ≠ ',') = true := by
  intro c hc
  have hne : c ≠ ',' := fun he => h.comma_notMem (he ▸ hc)
  simpa using hne

theorem decimalOf_whole {ds : List Char} (h : IsDigits ds) :
    decimalOf ds = .ofParts ds [] 0 := by
  rw [decimalOf_eq, List.takeWhile_eq_self_iff.mpr h.ne_comma,
    List.dropWhile_eq_nil_iff.mpr h.ne_comma]
  rfl

theorem decimalOf_fraction {ds : List Char} (h : IsDigits ds) (fs : List Char) :
    decimalOf (ds ++ ',' :: fs) = .ofParts ds fs 0 := by
  rw [decimalOf_eq, List.takeWhile_append_of_pos h.ne_comma,
    List.dropWhile_append_of_pos h.ne_comma]
  simp

end DecimalComma.Token
