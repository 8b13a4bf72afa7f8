import DecimalComma.Proofs.Token.Lexeme
import DecimalComma.Token.Scanner
import Mathlib.Tactic

/-! The scan of a text for lexemes as a relation: from the left, the longest one wherever one
begins, without overlaps. It relates every text to one list of tokens, and the scanner finds that
list. -/
namespace DecimalComma.Token

/-- No lexeme begins a text. -/
def NoLexeme (cs : List Char) : Prop := ∀ k v, Lexeme k v → ¬ v <+: cs

/-- The tokens of a text that stands at a position. -/
inductive Scan : Nat → List Char → List Token → Prop where
  | nil {n : Nat} : Scan n [] []
  | skip {n : Nat} {c : Char} {cs : List Char} {ts : List Token} (h : NoLexeme (c :: cs))
      (tail : Scan (n + 1) cs ts) : Scan n (c :: cs) ts
  | lexeme {n : Nat} {k : TokenKind} {w cs : List Char} {ts : List Token} (h : Lexeme k w)
      (hl : Longest w cs) (tail : Scan (n + w.length) cs ts) :
      Scan n (w ++ cs) (⟨String.ofList w, n, k⟩ :: ts)

theorem Marks.lexeme {c : Char} (h : Marks c) : ∃ k, Lexeme k [c] := by
  rcases h with h | h | h
  · exact ⟨_, .whole (isDigits_singleton h)⟩
  · exact ⟨_, .operator h⟩
  · exact ⟨_, .parenthesis h⟩

theorem noLexeme_cons_iff {c : Char} {cs : List Char} : NoLexeme (c :: cs) ↔ ¬ Marks c := by
  constructor
  · intro h hc
    obtain ⟨k, hk⟩ := hc.lexeme
    exact h k _ hk ⟨cs, rfl⟩
  · intro h k v hv hp
    obtain ⟨a, r, rfl, -⟩ := hv.exists_cons
    obtain ⟨rfl, -⟩ := List.cons_prefix_cons.mp hp
    exact h hv.marks

/-- What the first step of a scan can be. -/
theorem Scan.inv {n : Nat} {cs : List Char} {ts : List Token} (h : Scan n cs ts) :
    cs = [] ∧ ts = [] ∨
    (∃ c r, cs = c :: r ∧ NoLexeme (c :: r) ∧ Scan (n + 1) r ts) ∨
    ∃ k w r us, cs = w ++ r ∧ Lexeme k w ∧ Longest w r ∧
      ts = ⟨String.ofList w, n, k⟩ :: us ∧ Scan (n + w.length) r us := by
  cases h with
  | nil => exact .inl ⟨rfl, rfl⟩
  | skip h tail => exact .inr (.inl ⟨_, _, rfl, h, tail⟩)
  | lexeme h hl tail => exact .inr (.inr ⟨_, _, _, _, rfl, h, hl, rfl, tail⟩)

theorem Scan.unique {n : Nat} {cs : List Char} {ts us : List Token} (h : Scan n cs ts)
    (h' : Scan n cs us) : ts = us := by
  induction h generalizing us with
  | nil =>
    rcases h'.inv with ⟨-, rfl⟩ | ⟨c, r, hc, -, -⟩ | ⟨k, w, r, us, hw, hk, -, -, -⟩
    · rfl
    · cases hc
    · have := hk.length_pos
      rw [(List.append_eq_nil_iff.mp hw.symm).1] at this
      cases this
  | skip h _ ih =>
    rcases h'.inv with ⟨hc, -⟩ | ⟨c, r, hc, -, tail⟩ | ⟨k, w, r, us, hw, hk, -, -, -⟩
    · cases hc
    · obtain ⟨rfl, rfl⟩ := List.cons.inj hc
      exact ih tail
    · exact absurd ⟨r, hw.symm⟩ (h k w hk)
  | lexeme hw hl _ ih =>
    rcases h'.inv with ⟨hc, -⟩ | ⟨c, r, hc, hn, -⟩ | ⟨k, w, r, us, hv, hk, hl', rfl, tail⟩
    · have := hw.length_pos
      rw [(List.append_eq_nil_iff.mp hc).1] at this
      cases this
    · exact absurd ⟨_, hc⟩ (hn _ _ hw)
    · obtain ⟨rfl, rfl, rfl⟩ := Longest.unique hw hk hl hl' hv
      rw [ih tail]

end DecimalComma.Token

namespace DecimalComma.Scanner
open Token

theorem run_of_step_none {s : Scanner} (h : s.step = none) : s.run = [] := by
  rw [run]
  split <;> simp_all

theorem run_of_step_silent {s s' : Scanner} (h : s.step = some (s', none)) : s.run = s'.run := by
  rw [run]
  split <;> simp_all

theorem run_of_step_token {s s' : Scanner} {t : Token} (h : s.step = some (s', some t)) :
    s.run = t :: s'.run := by
  rw [run]
  split <;> simp_all

/-- The scanner at an index of a text, in a mode. -/
def on (cs : List Char) (i : Nat) (m : Mode) : Scanner := ⟨⟨cs.toArray, i⟩, m⟩

@[simp] theorem mode_on (cs : List Char) (i : Nat) (m : Mode) : (on cs i m).mode = m := rfl

@[simp] theorem current_on (cs : List Char) (i : Nat) (m : Mode) :
    (on cs i m).cursor.current = cs[i]? := by
  simp [on, Cursor.current, Cursor.item?]

@[simp] theorem position_on (cs : List Char) (i : Nat) (m : Mode) :
    (on cs i m).cursor.position = i := rfl

@[simp] theorem mk_cursor_on (cs : List Char) (i : Nat) (m m' : Mode) :
    (⟨(on cs i m).cursor, m'⟩ : Scanner) = on cs i m' := rfl

@[simp] theorem mk_forward_on (cs : List Char) (i : Nat) (m m' : Mode) :
    (⟨(on cs i m).cursor.forward, m'⟩ : Scanner) = on cs (i + 1) m' := rfl

@[simp] theorem mk_back_on (cs : List Char) (i : Nat) (m m' : Mode) :
    (⟨(on cs (i + 1) m).cursor.back, m'⟩ : Scanner) = on cs i m' := by
  simp [on, Cursor.back]

variable {cs : List Char} {i : Nat} {start : Int} {read : List Char} {c : Char}
  {m : Int → List Char → Mode}

/-- Modes that take digits. -/
inductive TakesDigits : (Int → List Char → Mode) → Prop where
  | whole : TakesDigits .whole
  | fraction : TakesDigits .fraction

theorem step_end (h : cs[i]? = none) : (on cs i .between).step = none := by simp [step, h]

theorem step_first (h : cs[i]? = some c) (hc : c.isDigit) :
    (on cs i .between).step = some (on cs (i + 1) (.whole i [c]), none) := by
  simp [step, h, hc]

theorem step_other (h : cs[i]? = some c) (hc : ¬ c.isDigit) :
    (on cs i .between).step = some (on cs (i + 1) .between,
      (TokenKind.ofChar? c).map (⟨String.singleton c, i, ·⟩)) := by
  simp [step, h, hc]

theorem step_digit (hm : TakesDigits m) (h : cs[i]? = some c) (hc : c.isDigit) :
    (on cs i (m start read)).step = some (on cs (i + 1) (m start (c :: read)), none) := by
  cases hm <;> simp [step, h, hc]

/-- A number ends before a character that is no digit, and a whole one before one that is no comma.
-/
theorem step_number (hm : TakesDigits m) (h : ∀ c ∈ cs[i]?, ¬ c.isDigit)
    (hw : m start read = .whole start read → cs[i]? ≠ some ',') :
    (on cs i (m start read)).step = some (on cs i .between, some (number start read)) := by
  cases hc : cs[i]? with
  | none => cases hm <;> simp [step, hc]
  | some c =>
    have hd := h c hc
    cases hm with
    | whole =>
      have hne : c ≠ ',' := by simpa [hc] using hw rfl
      simp [step, hc, hd, decimalMark, hne]
    | fraction => simp [step, hc, hd]

theorem step_comma (h : cs[i]? = some ',') :
    (on cs i (.whole start read)).step = some (on cs (i + 1) (.comma start read), none) := by
  simp [step, h, decimalMark]

theorem step_fraction (h : cs[i]? = some c) (hc : c.isDigit) : (on cs i (.comma start read)).step =
    some (on cs (i + 1) (.fraction start (c :: ',' :: read)), none) := by
  simp [step, h, decimalMark, hc]

theorem step_back (h : ∀ c ∈ cs[i + 1]?, ¬ c.isDigit) : (on cs (i + 1) (.comma start read)).step =
    some (on cs i .between, some (number start read)) := by
  cases hc : cs[i + 1]? with
  | none => simp [step, hc]
  | some c => simp [step, hc, h c hc]

theorem getElem?_of_drop {r : List Char} (h : cs.drop i = c :: r) : cs[i]? = some c := by
  rw [← List.head?_drop, h]
  rfl

theorem getElem?_of_drop_nil (h : cs.drop i = []) : cs[i]? = none := by
  rw [← List.head?_drop, h]
  rfl

theorem not_isDigit_of_drop (h : ∀ c r, cs.drop i = c :: r → ¬ c.isDigit) :
    ∀ c ∈ cs[i]?, ¬ c.isDigit := by
  intro c hc
  rw [← List.head?_drop] at hc
  obtain ⟨r, hr⟩ := List.head?_eq_some_iff.mp hc
  exact h c r hr

theorem drop_of_drop_append {v r : List Char} (h : cs.drop i = v ++ r) :
    cs.drop (i + v.length) = r := by
  rw [← List.drop_drop, h, List.drop_left]

theorem drop_of_drop_cons {r : List Char} (h : cs.drop i = c :: r) :
    cs.drop (i + 1) = r := drop_of_drop_append (v := [c]) h

/-- A mode that takes digits takes all digits ahead. -/
theorem run_digits (hm : TakesDigits m) {ds r : List Char} (hd : ∀ c ∈ ds, c.isDigit)
    (h : cs.drop i = ds ++ r) : (on cs i (m start read)).run =
      (on cs (i + ds.length) (m start (ds.reverse ++ read))).run := by
  induction ds generalizing i read with
  | nil => rfl
  | cons c ds ih =>
    have hs : (on cs i (m start read)).step = some (on cs (i + 1) (m start (c :: read)), none) :=
      step_digit hm (getElem?_of_drop h) (hd c (by simp))
    have ht : cs.drop (i + 1) = ds ++ r := drop_of_drop_cons h
    rw [run_of_step_silent hs, ih (fun a ha => hd a (by simp [ha])) ht, List.length_cons,
      List.reverse_cons, List.append_assoc, List.singleton_append]
    congr 2
    omega

theorem run_fraction_end (h : ∀ c r, cs.drop i = c :: r → ¬ c.isDigit) :
    (on cs i (.fraction start read)).run = number start read :: (on cs i .between).run :=
  run_of_step_token (step_number .fraction (not_isDigit_of_drop h) nofun)

/-- A comma behind whole digits is stepped over, and back over where no digit follows. -/
theorem run_whole_end (h : ∀ c r, cs.drop i = c :: r → ¬ c.isDigit)
    (hf : ∀ c r, cs.drop i = ',' :: c :: r → ¬ c.isDigit) :
    (on cs i (.whole start read)).run = number start read :: (on cs i .between).run := by
  by_cases hm : cs[i]? = some ','
  · rw [← List.head?_drop] at hm
    obtain ⟨r, hr⟩ := List.head?_eq_some_iff.mp hm
    have hback : ∀ c r, cs.drop (i + 1) = c :: r → ¬ c.isDigit := by
      intro c u hu
      exact hf c u (by rw [hr, ← drop_of_drop_cons hr, hu])
    rw [run_of_step_silent (step_comma (getElem?_of_drop hr)),
      run_of_step_token (step_back (not_isDigit_of_drop hback))]
  · exact run_of_step_token (step_number .whole (not_isDigit_of_drop h) fun _ => hm)

theorem run_whole_comma {r : List Char} (h : cs.drop i = ',' :: c :: r) (hc : c.isDigit) :
    (on cs i (.whole start read)).run =
      (on cs (i + 2) (.fraction start (c :: ',' :: read))).run := by
  have ht : cs.drop (i + 1) = c :: r := drop_of_drop_cons h
  rw [run_of_step_silent (step_comma (getElem?_of_drop h)),
    run_of_step_silent (step_fraction (getElem?_of_drop ht) hc)]

/-- At a digit the scanner reads one number, and the number does not go on behind it. -/
theorem run_at_digit {r : List Char} (h : cs.drop i = c :: r) (hc : c.isDigit) :
    ∃ w rest, cs.drop i = w ++ rest ∧ Lexeme .number w ∧ Ends w rest ∧
      (on cs i .between).run =
        ⟨String.ofList w, i, .number⟩ :: (on cs (i + w.length) .between).run := by
  obtain ⟨ds, t, rfl, hd, hstop⟩ := exists_digits_append r
  have hr : cs.drop (i + 1) = ds ++ t := drop_of_drop_cons h
  have ht : cs.drop (i + 1 + ds.length) = t := drop_of_drop_append hr
  have hrun := run_of_step_silent (step_first (getElem?_of_drop h) hc)
  rw [run_digits .whole hd hr] at hrun
  by_cases hf : ∃ f u, t = ',' :: f :: u ∧ f.isDigit
  · obtain ⟨f, u, rfl, hfd⟩ := hf
    obtain ⟨fs, v, rfl, hfs, hvt⟩ := exists_digits_append u
    have hv : cs.drop (i + 1 + ds.length + 2) = fs ++ v :=
      drop_of_drop_append (v := [',', f]) ht
    have hend : cs.drop (i + 1 + ds.length + 2 + fs.length) = v := drop_of_drop_append hv
    refine ⟨(c :: ds) ++ ',' :: f :: fs, v, by simp [h],
      .fraction (isDigits_cons hc hd) (isDigits_cons hfd hfs), ⟨hvt, by simp⟩, ?_⟩
    rw [hrun, run_whole_comma ht hfd, run_digits .fraction hfs hv, run_fraction_end (by rwa [hend])]
    congr 2
    · simp [number]
    · congr 1
      simp only [List.length_append, List.length_cons]
      omega
  · refine ⟨c :: ds, t, h, .whole (isDigits_cons hc hd), ⟨hstop, ?_⟩, ?_⟩
    · intro _ a u hu ha
      exact hf ⟨a, u, hu, ha⟩
    · rw [hrun, run_whole_end (by rwa [ht])]
      · congr 2
        · simp [number]
        · congr 1
          simp only [List.length_cons]
          omega
      · intro a u hu ha
        exact hf ⟨a, u, ht.symm.trans hu, ha⟩

theorem run_at_other {r : List Char} (h : cs.drop i = c :: r) (hc : ¬ c.isDigit) :
    (on cs i .between).run =
      ((TokenKind.ofChar? c).map (⟨String.singleton c, i, ·⟩)).toList ++
        (on cs (i + 1) .between).run := by
  have hs := step_other (getElem?_of_drop h) hc
  cases hk : TokenKind.ofChar? c with
  | none =>
    rw [hk] at hs
    rw [run_of_step_silent hs]
    rfl
  | some k =>
    rw [hk] at hs
    rw [run_of_step_token hs]
    rfl

theorem scan_run (cs : List Char) (i : Nat) : Scan i (cs.drop i) (on cs i .between).run := by
  induction hn : cs.length - i using Nat.strong_induction_on generalizing i with
  | _ n ih =>
  cases h : cs.drop i with
  | nil =>
    rw [run_of_step_none (step_end (getElem?_of_drop_nil h))]
    exact .nil
  | cons c r =>
    have hlt : i < cs.length := by
      by_contra hge
      rw [List.drop_eq_nil_iff.mpr (by omega)] at h
      cases h
    by_cases hc : c.isDigit
    · obtain ⟨w, rest, hw, hl, he, hrun⟩ := run_at_digit h hc
      have := hl.length_pos
      rw [← h, hrun, hw]
      apply Scan.lexeme hl (longest_of_ends hl he)
      rw [← drop_of_drop_append hw]
      exact ih (cs.length - (i + w.length)) (by omega) (i + w.length) rfl
    · have ht : cs.drop (i + 1) = r := drop_of_drop_cons h
      have tail := ih (cs.length - (i + 1)) (by omega) (i + 1) rfl
      rw [ht] at tail
      rw [run_at_other h hc]
      cases hk : TokenKind.ofChar? c with
      | none => exact .skip (noLexeme_cons_iff.mpr (not_marks_of_ofChar?_eq_none hc hk)) tail
      | some k =>
        have hl := ofChar?_eq_some hk
        have hne : k ≠ .number := by
          intro hx
          subst hx
          obtain ⟨_, _, he, hd | ⟨-, hd, -⟩ | ⟨-, hd, -⟩⟩ := hl.exists_cons
          · cases he; exact hc hd.1
          · cases hd
          · cases hd
        exact .lexeme hl (longest_singleton hl hne r) tail

end DecimalComma.Scanner

namespace DecimalComma.Token

theorem scan_scan (source : String) : Scan 0 source.toList (scan source) := Scanner.scan_run _ 0

theorem scan_eq_iff {source : String} {ts : List Token} :
    scan source = ts ↔ Scan 0 source.toList ts :=
  ⟨fun h => h ▸ scan_scan source, (scan_scan source).unique⟩

end DecimalComma.Token
