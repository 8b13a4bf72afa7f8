import DecimalComma.Proofs.Grammar.Grouping

/-! What stands behind an expression. A phrase ends where it did, whatever tokens follow, as long as the
first of them does not go on with it; so text behind a source leaves its tree alone unless it begins
with an operator and all of the source was read. -/
namespace DecimalComma

namespace Grammar

variable {ts us : List Token} {l : Level} {i j : Nat} {e : Expr}

/-- The tree tells where a phrase ends. -/
theorem Phrase.end_eq (h : Phrase ts l i e j) : j = i + e.symbols.length := by
  have hlen := h.derives.denotes.length_eq
  rw [List.length_drop, List.length_take, Nat.min_eq_left h.le_length] at hlen
  have := h.start_le
  omega

theorem Phrase.getElem?_append (h : Phrase ts l i e j) :
    (ts ++ us)[j]? = if j = ts.length then us.head? else ts[j]? := by
  have := h.le_length
  split_ifs with hj
  · rw [List.getElem?_append_right (by omega), hj, Nat.sub_self, List.head?_eq_getElem?]
  · rw [List.getElem?_append_left (by omega)]

/-- Behind other tokens a phrase stays one iff it ends before the last of its own or the first of the
others does not go on with it. -/
theorem Phrase.append_iff (h : Phrase ts l i e j) :
    Phrase (ts ++ us) l i e j ↔ (j = ts.length → ∀ u ∈ us.head?, ¬ Absorbs l u) := by
  have hle := h.le_length
  constructor
  · intro h' hj u hu
    apply h'.stops u
    rw [h.getElem?_append, if_pos hj]
    exact hu
  · intro hu
    refine ⟨h.start_le, by rw [List.length_append]; omega, ?_, ?_⟩
    · rw [List.take_append_of_le_length hle]
      exact h.derives
    · intro t ht
      rw [h.getElem?_append] at ht
      split_ifs at ht with hj
      · exact hu hj t ht
      · exact h.stops t ht

end Grammar

namespace Session
open Grammar Token

variable {s t : String} {e : Expr} {i : Nat}

/-- A text that begins with no operator: with a number or a parenthesis, or it has no token. -/
def Detached (t : String) : Prop := ∀ u ∈ (scan t).head?, u.kind = .number ∨ u.kind = .parentheses

theorem detached_iff {f : Int → Int} : Detached t ↔
    ∀ u ∈ ((scan t).map (moved f)).head?, ¬ Absorbs .additive u := by
  unfold Detached
  rw [List.head?_map]
  constructor
  · intro h u hu ha
    obtain ⟨v, hv, rfl⟩ := Option.map_eq_some_iff.mp hu
    have hk : v.kind = .operator := ha.1
    rcases h v hv with hn | hp
    · cases hk.symm.trans hn
    · cases hk.symm.trans hp
  · intro h u hu
    have hno : u.kind ≠ .operator := by
      intro hk
      have ha := known_scan t u (List.mem_of_mem_head? hu) hk
      exact h (u.moved f) (by rw [hu]; rfl) (ha.of_content (content_moved f u).symm)
    cases hk : u.kind with
    | number => exact .inl rfl
    | operator => exact absurd hk hno
    | parentheses => exact .inr rfl

theorem read_start_eq_ok_iff : (start (scan s)).read .additive = (.ok e, on (scan s) i) ↔
    Phrase (scan s) .additive 0 e i := by
  refine ⟨phrase_of_read, ?_⟩
  intro h
  have hstart : start (scan s) = on (scan s) 0 := rfl
  rw [hstart, read_on_eq_ok_iff]
  exact ⟨i, rfl, h⟩

/-- A source is parsed to a tree iff it begins with as many tokens as the tree has symbols, which are
an expression that could not go on. -/
theorem parse_eq_ok_iff :
    Expr.parse s = .ok e ↔ Phrase (scan s) .additive 0 e e.symbols.length := by
  refine ⟨?_, parse_of_phrase⟩
  intro h
  obtain ⟨j, hj⟩ := exists_phrase_of_parse h
  have hend := hj.end_eq
  rw [Nat.zero_add] at hend
  rwa [← hend]

theorem whole_iff (h : Expr.parse s = .ok e) : Whole s e ↔ e.symbols.length = (scan s).length := by
  have hp := parse_eq_ok_iff.mp h
  unfold Whole
  rw [read_start_eq_ok_iff]
  constructor
  · intro hw
    exact (phrase_unique hp hw).2
  · intro hlen
    rwa [← hlen]

theorem parse_append_iff_detached (h : Expr.parse s = .ok e) (hb : Boundary s.toList t.toList) :
    Expr.parse (s ++ t) = .ok e ↔ (Whole s e → Detached t) := by
  rw [parse_eq_ok_iff, scan_append hb, (parse_eq_ok_iff.mp h).append_iff, whole_iff h,
    detached_iff]

/-- Text behind an expression, if the two are set apart, leaves the tree alone iff no operator goes on
with it: text that begins with none always does, and any other does if tokens were left over before
it. The reading ends at the same token. -/
theorem parse_append_iff (h : Expr.parse s = .ok e) (hb : Boundary s.toList t.toList) :
    (Detached t → Expr.parse (s ++ t) = .ok e) ∧
    (Expr.parse (s ++ t) = .ok e ↔ (Whole s e → Detached t)) ∧
    ∀ i, (start (scan s)).read .additive = (.ok e, on (scan s) i) →
      Expr.parse (s ++ t) = .ok e →
        (start (scan (s ++ t))).read .additive = (.ok e, on (scan (s ++ t)) i) := by
  have hiff := parse_append_iff_detached h hb
  refine ⟨fun ht => hiff.mpr fun _ => ht, hiff, ?_⟩
  intro i hi hp
  have hend := (phrase_of_read hi).end_eq
  rw [Nat.zero_add] at hend
  rw [read_start_eq_ok_iff, hend]
  exact parse_eq_ok_iff.mp hp

/-- A sum stays what it is before a parenthesis that was never opened, and not before a factor. -/
theorem parse_append_iff_sum : ∃ e, Expr.parse "1+2" = .ok e ∧
    Boundary "1+2".toList ")*(".toList ∧ Detached ")*(" ∧ Expr.parse ("1+2" ++ ")*(") = .ok e ∧
      Expr.parse ("1+2" ++ "*3") ≠ .ok e := by
  have hsum : scan "1+2" =
      [⟨"1", 0, .number⟩, ⟨"+", 1, .operator⟩, ⟨"2", 2, .number⟩] := by cbv
  have hclosing : scan ")*(" =
      [⟨")", 0, .parentheses⟩, ⟨"*", 1, .operator⟩, ⟨"(", 2, .parentheses⟩] := by cbv
  have hfactor : scan "*3" = [⟨"*", 0, .operator⟩, ⟨"3", 1, .number⟩] := by cbv
  obtain ⟨e, he⟩ := exists_read_of_judge (s := "1+2") (i := 3) (by rw [hsum]; rfl)
  have hparse := parse_of_read he
  have hwhole : Whole "1+2" e := by
    unfold Whole
    rw [he, hsum]
    rfl
  have hb : Boundary "1+2".toList ")*(".toList := boundary_of_head (by decide)
  have hdetached : Detached ")*(" := by simp [Detached, hclosing]
  have hattached : ¬ Detached "*3" := by simp [Detached, hfactor]
  have hb' : Boundary "1+2".toList "*3".toList := boundary_of_head (by decide)
  refine ⟨e, hparse, hb, hdetached, (parse_append_iff hparse hb).1 hdetached, ?_⟩
  intro hp
  exact hattached ((parse_append_iff hparse hb').2.1.mp hp hwhole)

end Session
end DecimalComma
