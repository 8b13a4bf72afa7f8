import DecimalComma.Proofs.Token.Scan

/-! What the tokens of a source are, said of the source and without a scan: texts of it in order,
together all its digits, operators and parentheses, and every number as long as it can be. -/
namespace DecimalComma.Token

/-- The positions of a token's characters. -/
def Covers (t : Token) (k : Int) : Prop := t.position ≤ k ∧ k < t.position + t.payload.length

/-- A token is a lexeme of the source, written where the token says, and the source does not continue
it if it is a number. -/
structure ReadsAt (s : List Char) (t : Token) : Prop where
  nonneg : 0 ≤ t.position
  slice : (s.drop t.position.toNat).take t.payload.length = t.payload.toList
  lexeme : Lexeme t.kind t.payload.toList
  maximal : t.kind = .number →
    Ends t.payload.toList (s.drop (t.position.toNat + t.payload.length))

/-- The tokens of a source that start at an index or behind it. -/
structure Tokenization (s : List Char) (n : Nat) (ts : List Token) : Prop where
  start : ∀ t ∈ ts, (n : Int) ≤ t.position
  reads : ∀ t ∈ ts, ReadsAt s t
  ordered : ts.Pairwise fun t u => t.position < u.position ∧ ∀ k, ¬ (t.Covers k ∧ u.Covers k)
  covered : ∀ k : Nat, n ≤ k → ∀ c, s[k]? = some c → Marks c → ∃! t, t ∈ ts ∧ t.Covers k

variable {s : List Char} {n : Nat} {t : Token} {ts : List Token}

theorem ReadsAt.exists_longest (h : ReadsAt s t) : ∃ (i : Nat) (k : TokenKind) (w rest : List Char),
    t = ⟨String.ofList w, i, k⟩ ∧ s.drop i = w ++ rest ∧ Lexeme k w ∧ Longest w rest := by
  have hd : s.drop t.position.toNat =
      t.payload.toList ++ s.drop (t.position.toNat + t.payload.length) := by
    rw [← List.drop_drop, ← h.slice]
    exact (List.take_append_drop _ _).symm
  refine ⟨t.position.toNat, t.kind, t.payload.toList, _, ?_, hd, h.lexeme, ?_⟩
  · have hp := Int.toNat_of_nonneg h.nonneg
    rw [String.ofList_toList, hp]
  · by_cases hk : t.kind = .number
    · have hl := h.lexeme
      rw [hk] at hl
      exact longest_of_ends hl (h.maximal hk)
    · obtain ⟨c, r, hw, hc | ⟨-, -, rfl⟩ | ⟨-, -, rfl⟩⟩ := h.lexeme.exists_cons
      · exact absurd hc.2 hk
      · rw [hw]
        exact longest_singleton (hw ▸ h.lexeme) hk _
      · rw [hw]
        exact longest_singleton (hw ▸ h.lexeme) hk _

theorem readsAt_of_longest {i : Nat} {k : TokenKind} {w rest : List Char}
    (hd : s.drop i = w ++ rest) (hl : Lexeme k w) (hm : Longest w rest) :
    ReadsAt s ⟨String.ofList w, i, k⟩ := by
  have hrest : s.drop (i + w.length) = rest := by
    rw [← List.drop_drop, hd, List.drop_left]
  refine ⟨Int.natCast_nonneg i, ?_, by simpa using hl, ?_⟩
  · simp [hd]
  · intro hx
    subst hx
    simpa [hrest] using hm.ends hl

theorem covers_position (h : ReadsAt s t) : t.Covers t.position := by
  have := h.lexeme.length_pos
  rw [String.length_toList] at this
  exact ⟨le_refl _, by omega⟩

/-- The source has the first character of a token where the token says. -/
theorem ReadsAt.exists_first (h : ReadsAt s t) :
    ∃ c r, t.payload.toList = c :: r ∧ s[t.position.toNat]? = some c := by
  obtain ⟨i, k, w, rest, rfl, hd, hl, -⟩ := h.exists_longest
  obtain ⟨c, r, rfl, -⟩ := hl.exists_cons
  exact ⟨c, r, String.toList_ofList, Scanner.getElem?_of_drop hd⟩

/-- Positions in order and intervals without a common point follow each other. -/
theorem covers_disjoint_iff (h : ReadsAt s t) {u : Token} (hu : ReadsAt s u) :
    (t.position < u.position ∧ ∀ k, ¬ (t.Covers k ∧ u.Covers k)) ↔
      t.position + t.payload.length ≤ u.position := by
  have ht := h.lexeme.length_pos
  rw [String.length_toList] at ht
  constructor
  · intro hx
    obtain ⟨hlt, hd⟩ := hx
    by_contra hge
    exact hd u.position ⟨⟨by omega, by omega⟩, covers_position hu⟩
  · intro hle
    refine ⟨by omega, ?_⟩
    intro k hx
    obtain ⟨⟨-, h1⟩, ⟨h2, -⟩⟩ := hx
    omega

theorem Tokenization.eq_nil (h : Tokenization s n ts) (hs : s.drop n = []) : ts = [] := by
  cases ts with
  | nil => rfl
  | cons t ts =>
    have hn := h.start t (by simp)
    obtain ⟨i, k, w, rest, rfl, hd, hl, -⟩ := (h.reads t (by simp)).exists_longest
    have hi : n ≤ i := Int.ofNat_le.mp hn
    have hz : s.drop i = [] := by
      rw [List.drop_eq_nil_iff] at hs ⊢
      omega
    have := hl.length_pos
    rw [hz] at hd
    rw [(List.append_eq_nil_iff.mp hd.symm).1] at this
    cases this

theorem tokenization_nil (hs : s.drop n = []) : Tokenization s n [] := by
  refine ⟨by simp, by simp, .nil, ?_⟩
  intro k hk c hc
  rw [List.drop_eq_nil_iff] at hs
  rw [List.getElem?_eq_none (by omega)] at hc
  cases hc

theorem tokenization_skip_iff {c : Char} {r : List Char} (hs : s.drop n = c :: r)
    (hc : ¬ Marks c) : Tokenization s n ts ↔ Tokenization s (n + 1) ts := by
  have hn : s[n]? = some c := Scanner.getElem?_of_drop hs
  constructor
  · intro h
    refine ⟨?_, h.reads, h.ordered, fun k hk => h.covered k (by omega)⟩
    intro t ht
    have hle := h.start t ht
    obtain ⟨i, k, w, rest, hti, hd, hl, -⟩ := (h.reads t ht).exists_longest
    have hp : t.position = i := by rw [hti]
    have hne : i ≠ n := by
      intro hx
      subst hx
      obtain ⟨a, v, rfl, -⟩ := hl.exists_cons
      rw [hs] at hd
      obtain ⟨rfl, -⟩ := List.cons.inj hd
      exact hc hl.marks
    omega
  · intro h
    refine ⟨fun t ht => ?_, h.reads, h.ordered, ?_⟩
    · have := h.start t ht
      omega
    · intro k hk a ha hm
      have hne : k ≠ n := by
        intro hx
        subst hx
        rw [hn, Option.some.injEq] at ha
        exact hc (ha ▸ hm)
      exact h.covered k (by omega) a ha hm

theorem Tokenization.exists_cons {c : Char} {r : List Char} (h : Tokenization s n ts)
    (hs : s.drop n = c :: r) (hc : Marks c) :
    ∃ k w rest us, s.drop n = w ++ rest ∧ Lexeme k w ∧ Longest w rest ∧
      ts = ⟨String.ofList w, n, k⟩ :: us ∧ Tokenization s (n + w.length) us := by
  obtain ⟨t, ⟨ht, hcov⟩, -⟩ := h.covered n (le_refl n) c (Scanner.getElem?_of_drop hs) hc
  have hp : t.position = n := by
    have := h.start t ht
    have := hcov.1
    omega
  obtain ⟨i, k, w, rest, hti, hd, hl, hm⟩ := (h.reads t ht).exists_longest
  obtain rfl : i = n := by
    rw [hti] at hp
    exact Int.ofNat_inj.mp hp
  -- a token before `t` would start before the index
  obtain ⟨us, rfl⟩ : ∃ us, ts = t :: us := by
    cases ts with
    | nil => simp at ht
    | cons u us =>
      rcases List.mem_cons.mp ht with rfl | ht
      · exact ⟨us, rfl⟩
      · have hlt := ((List.pairwise_cons.mp h.ordered).1 t ht).1
        have := h.start u (by simp)
        omega
  have hlen : t.payload.length = w.length := by
    rw [hti]
    simp
  obtain ⟨hfirst, hrest⟩ := List.pairwise_cons.mp h.ordered
  refine ⟨k, w, rest, us, hd, hl, hm, by rw [← hti], ?_, ?_, hrest, ?_⟩
  · intro u hu
    have := (covers_disjoint_iff (h.reads t ht) (h.reads u (by simp [hu]))).mp (hfirst u hu)
    push_cast
    omega
  · intro u hu
    exact h.reads u (by simp [hu])
  · intro k hk a ha hma
    obtain ⟨u, ⟨hu, huc⟩, huniq⟩ := h.covered k (by omega) a ha hma
    refine ⟨u, ⟨?_, huc⟩, fun v hv => huniq v ⟨by simp [hv.1], hv.2⟩⟩
    rcases List.mem_cons.mp hu with rfl | hu
    · have := huc.2
      omega
    · exact hu

theorem Tokenization.cons {k : TokenKind} {w rest : List Char} (hd : s.drop n = w ++ rest)
    (hl : Lexeme k w) (hm : Longest w rest) (h : Tokenization s (n + w.length) ts) :
    Tokenization s n (⟨String.ofList w, n, k⟩ :: ts) := by
  have ht := readsAt_of_longest hd hl hm
  have hlen : (String.ofList w).length = w.length := by simp
  have hreads : ∀ u ∈ (⟨String.ofList w, n, k⟩ : Token) :: ts, ReadsAt s u := by
    intro u hu
    rcases List.mem_cons.mp hu with rfl | hu
    · exact ht
    · exact h.reads u hu
  have hpair : ((⟨String.ofList w, n, k⟩ : Token) :: ts).Pairwise
      fun t u => t.position < u.position ∧ ∀ k, ¬ (t.Covers k ∧ u.Covers k) := by
    refine List.pairwise_cons.mpr ⟨?_, h.ordered⟩
    intro u hu
    apply (covers_disjoint_iff ht (h.reads u hu)).mpr
    have := h.start u hu
    rw [hlen]
    push_cast at this
    omega
  refine ⟨?_, hreads, hpair, ?_⟩
  · intro u hu
    rcases List.mem_cons.mp hu with rfl | hu
    · exact le_refl _
    · have := h.start u hu
      push_cast at this
      omega
  · intro j hj c hc hmc
    by_cases hlt : j < n + w.length
    · refine ⟨_, ⟨List.mem_cons_self, ⟨by simpa using hj, ?_⟩⟩, ?_⟩
      · rw [hlen]
        change (j : Int) < n + w.length
        omega
      · intro u hx
        obtain ⟨hu, huc⟩ := hx
        rcases List.mem_cons.mp hu with rfl | hu
        · rfl
        · have := h.start u hu
          have := huc.1
          omega
    · obtain ⟨u, ⟨hu, huc⟩, huniq⟩ := h.covered j (by omega) c hc hmc
      refine ⟨u, ⟨by simp [hu], huc⟩, ?_⟩
      intro v hx
      obtain ⟨hv, hvc⟩ := hx
      rcases List.mem_cons.mp hv with rfl | hv
      · have := hvc.2
        rw [hlen] at this
        push_cast at this
        omega
      · exact huniq v ⟨hv, hvc⟩

theorem tokenization_iff_scan : Tokenization s n ts ↔ Scan n (s.drop n) ts := by
  constructor
  · intro h
    induction hk : s.length - n using Nat.strong_induction_on generalizing n ts with
    | _ k ih =>
    cases hs : s.drop n with
    | nil =>
      rw [h.eq_nil hs]
      exact .nil
    | cons c r =>
      have hlt : n < s.length := by
        by_contra hge
        rw [List.drop_eq_nil_iff.mpr (by omega)] at hs
        cases hs
      by_cases hc : Marks c
      · obtain ⟨l, w, rest, us, hd, hl, hm, rfl, hus⟩ := h.exists_cons hs hc
        have := hl.length_pos
        have tail := ih (s.length - (n + w.length)) (by omega) hus rfl
        rw [Scanner.drop_of_drop_append hd] at tail
        rw [← hs, hd]
        exact .lexeme hl hm tail
      · have tail := ih (s.length - (n + 1)) (by omega) ((tokenization_skip_iff hs hc).mp h) rfl
        rw [Scanner.drop_of_drop_cons hs] at tail
        exact .skip (noLexeme_cons_iff.mpr hc) tail
  · intro h
    generalize hs : s.drop n = cs at h
    induction h with
    | nil => exact tokenization_nil hs
    | skip hc _ ih =>
      apply (tokenization_skip_iff hs (noLexeme_cons_iff.mp hc)).mpr
      exact ih (Scanner.drop_of_drop_cons hs)
    | lexeme hl hm _ ih => exact .cons hs hl hm (ih (Scanner.drop_of_drop_append hs))

theorem tokenization_scan (source : String) : Tokenization source.toList 0 (scan source) :=
  tokenization_iff_scan.mpr (scan_scan source)

/-- The scanner's tokens are the only ones that meet the description, and the only ones of the scan
for the longest lexemes. -/
theorem eq_scan_iff_tokenization (source : String) (ts : List Token) :
    (Tokenization source.toList 0 ts ↔ ts = scan source) ∧
      (Scan 0 source.toList ts ↔ ts = scan source) := by
  have hscan : Scan 0 source.toList ts ↔ ts = scan source := by
    rw [← scan_eq_iff, eq_comm]
  refine ⟨?_, hscan⟩
  rw [tokenization_iff_scan, List.drop_zero]
  exact hscan

end DecimalComma.Token
