import DecimalComma.Proofs.Token.Scan

/-! Boundaries between texts. Where a digit or a comma does not stand on both sides, no token reaches
across, and the tokens of the texts put together are those of the one and then those of the other. -/
namespace DecimalComma.Token

/-- The characters of numbers. -/
def Numeric (c : Char) : Prop := c.isDigit ∨ c = ','

instance (c : Char) : Decidable (Numeric c) := by
  unfold Numeric
  infer_instance

/-- The last character of a text and the first one of the next are not both characters of numbers. -/
def Boundary (s t : List Char) : Prop :=
  ∀ u a b v, s = u ++ [a] → t = b :: v → ¬ (Numeric a ∧ Numeric b)

theorem boundary_of_head {s : List Char} {b : Char} {v : List Char} (h : ¬ Numeric b) :
    Boundary s (b :: v) := by
  intro _ _ c _ _ ht hn
  obtain ⟨rfl, -⟩ := List.cons.inj ht
  exact h hn.2

theorem boundary_of_last {u t : List Char} {a : Char} (h : ¬ Numeric a) :
    Boundary (u ++ [a]) t := by
  intro _ _ _ _ hs _ hn
  obtain ⟨-, ha⟩ := List.append_inj' hs rfl
  obtain ⟨rfl, -⟩ := List.cons.inj ha
  exact h hn.1

theorem Boundary.of_append {r s t : List Char} (h : Boundary (r ++ s) t) : Boundary s t := by
  intro u a b v hs ht
  apply h (r ++ u) a b v _ ht
  rw [hs, List.append_assoc]

theorem IsDigits.exists_snoc {w : List Char} (h : IsDigits w) :
    ∃ u a, w = u ++ [a] ∧ a.isDigit := by
  refine ⟨w.dropLast, w.getLast h.ne_nil, ?_, ?_⟩
  · exact (List.dropLast_append_getLast h.ne_nil).symm
  · exact h.isDigit _ (List.getLast_mem h.ne_nil)

theorem Lexeme.exists_snoc {w : List Char} (h : Lexeme .number w) :
    ∃ u a, w = u ++ [a] ∧ a.isDigit := by
  cases h with
  | whole hd => exact hd.exists_snoc
  | fraction hd hf =>
    rename_i ds fs
    obtain ⟨u, a, rfl, ha⟩ := hf.exists_snoc
    exact ⟨ds ++ ',' :: u, a, by simp, ha⟩

/-- Every other lexeme is one character, which is none of a number. -/
theorem Lexeme.exists_singleton {k : TokenKind} {w : List Char} (h : Lexeme k w)
    (hk : k ≠ .number) : ∃ c, w = [c] ∧ ¬ Numeric c := by
  obtain ⟨c, r, rfl, hc | ⟨hc, -, rfl⟩ | ⟨hc, -, rfl⟩⟩ := h.exists_cons
  · exact absurd hc.2 hk
  · refine ⟨c, rfl, ?_⟩
    intro hn
    rcases hn with hd | rfl
    · exact not_isDigit_of_operator hc hd
    · simp at hc
  · refine ⟨c, rfl, ?_⟩
    intro hn
    rcases hn with hd | rfl
    · exact not_isDigit_of_parenthesis hc hd
    · simp at hc

theorem Ends.append {w cs t : List Char} (hw : Lexeme .number w) (h : Ends w cs)
    (hb : Boundary (w ++ cs) t) : Ends w (cs ++ t) := by
  obtain ⟨u, a, hu, ha⟩ := hw.exists_snoc
  constructor
  · intro c r hc hd
    cases cs with
    | nil => exact hb u a c r (by rw [hu, List.append_nil]) hc ⟨.inl ha, .inl hd⟩
    | cons b cs =>
      obtain ⟨rfl, -⟩ := List.cons.inj hc
      exact h.digit _ cs rfl hd
  · intro hn c r hc hd
    cases cs with
    | nil => exact hb u a ',' (c :: r) (by rw [hu, List.append_nil]) hc ⟨.inl ha, .inr rfl⟩
    | cons b cs =>
      obtain ⟨rfl, ht⟩ := List.cons.inj hc
      cases cs with
      | nil => exact hb w ',' c r rfl ht ⟨.inr rfl, .inl hd⟩
      | cons d cs =>
        obtain ⟨rfl, -⟩ := List.cons.inj ht
        exact h.fraction hn _ cs rfl hd

theorem Longest.append {k : TokenKind} {w cs t : List Char} (hw : Lexeme k w)
    (h : Longest w cs) (hb : Boundary (w ++ cs) t) : Longest w (cs ++ t) := by
  by_cases hk : k = .number
  · subst hk
    exact longest_of_ends hw ((h.ends hw).append hw hb)
  · obtain ⟨c, rfl, -⟩ := hw.exists_singleton hk
    exact longest_singleton hw hk _

/-- A scan goes on behind a boundary as if the text began there. -/
theorem Scan.append {n : Nat} {s t : List Char} {ts us : List Token} (h : Scan n s ts)
    (h' : Scan (n + s.length) t us) (hb : Boundary s t) : Scan n (s ++ t) (ts ++ us) := by
  induction h with
  | nil => exact h'
  | skip h _ ih =>
    rename_i n c cs ts _
    apply Scan.skip
    · exact noLexeme_cons_iff.mpr (noLexeme_cons_iff.mp h)
    · apply ih _ (hb.of_append (r := [c]))
      rw [List.length_cons] at h'
      rwa [Nat.add_assoc, Nat.add_comm 1]
  | lexeme hw hl _ ih =>
    rename_i n k w cs ts _
    rw [List.append_assoc]
    apply Scan.lexeme hw
    · exact hl.append hw hb
    · apply ih _ hb.of_append
      rw [List.length_append] at h'
      rwa [Nat.add_assoc]

/-- What a token says, wherever it stands. -/
def content (t : Token) : TokenKind × String := (t.kind, t.payload)

/-- A text of words with a blank behind each of them. -/
def spaced (ws : List (TokenKind × String)) : List Char := ws.flatMap fun w => w.2.toList ++ [' ']

theorem longest_nil (w : List Char) : Longest w [] := by
  intro _ v _ hp
  have := hp.length_le
  rwa [List.append_nil] at this

theorem scan_lexeme {k : TokenKind} {w : List Char} (h : Lexeme k w) (n : Nat) :
    Scan n w [⟨String.ofList w, n, k⟩] := by
  have hs : Scan n (w ++ []) [⟨String.ofList w, n, k⟩] := .lexeme h (longest_nil w) .nil
  rwa [List.append_nil] at hs

theorem scan_blank {c : Char} (h : ¬ Marks c) (n : Nat) : Scan n [c] [] :=
  .skip (noLexeme_cons_iff.mpr h) .nil

/-- Lexemes that are set apart are the tokens of the text. -/
theorem exists_scan_spaced {ws : List (TokenKind × String)}
    (h : ∀ w ∈ ws, Lexeme w.1 w.2.toList) (n : Nat) :
    ∃ ts, Scan n (spaced ws) ts ∧ ts.map content = ws := by
  induction ws generalizing n with
  | nil => exact ⟨[], .nil, rfl⟩
  | cons w ws ih =>
    obtain ⟨ts, hts, hc⟩ := ih (fun v hv => h v (by simp [hv])) (n + (w.2.toList ++ [' ']).length)
    have hblank : Boundary w.2.toList [' '] := boundary_of_head (by decide)
    have hword := (scan_lexeme (h w (by simp)) n).append (scan_blank (by decide) _) hblank
    refine ⟨_, hword.append hts (boundary_of_last (by decide)), ?_⟩
    simp [content, hc]

end DecimalComma.Token
