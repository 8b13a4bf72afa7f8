import DecimalComma.Proofs.Grammar.Reading

/-! Errors are found as early as they can be. The tokens before an error can be completed to an
expression: by an operand if one is expected, and by what closes the open groups. With the token at
which the error is found they cannot, whatever follows. -/
namespace DecimalComma.Automaton
open Grammar Token

variable {last : Option Token} {s s' : State} {t u : Token} {ts us vs : List Token} {n : Nat}

/-- The state behind some tokens, if the automaton gets through them. -/
def after (s : State) : List Token → Option State
  | [] => some s
  | t :: ts => match step s t with
    | .ok s' => after s' ts
    | .error _ => none

theorem run_append_of_after (h : after s us = some s') :
    run last s n (us ++ vs) = run last s' (n + us.length) vs := by
  induction us generalizing s n with
  | nil =>
    cases h
    rfl
  | cons t us ih =>
    rw [after] at h
    cases hs : step s t with
    | error v =>
      rw [hs] at h
      cases h
    | ok q =>
      rw [hs] at h
      rw [List.cons_append, run_of_ok hs, ih h, List.length_cons]
      congr 1
      omega

/-- A run gets through the tokens before its index and gives its verdict there. -/
theorem exists_after_of_run {v : Verdict} {m : Nat} (h : run last s n ts = (v, m)) :
    ∃ us vs q, ts = us ++ vs ∧ m = n + us.length ∧ after s us = some q ∧
      (vs = [] ∧ v = finish last q ∨ ∃ t r, vs = t :: r ∧ step q t = .error v) := by
  induction ts generalizing s n with
  | nil =>
    cases h
    exact ⟨[], [], s, rfl, rfl, rfl, .inl ⟨rfl, rfl⟩⟩
  | cons t ts ih =>
    cases hs : step s t with
    | error w =>
      rw [run_of_error hs] at h
      cases h
      exact ⟨[], t :: ts, s, rfl, rfl, rfl, .inr ⟨t, ts, rfl, hs⟩⟩
    | ok q =>
      rw [run_of_ok hs] at h
      obtain ⟨us, vs, q', rfl, hm, ha, hv⟩ := ih h
      refine ⟨t :: us, vs, q', rfl, ?_, ?_, hv⟩
      · rw [hm, List.length_cons]
        omega
      · rw [after, hs]
        exact ha

theorem exists_after_of_judge (ts : List Token) :
    ∃ us vs q, ts = us ++ vs ∧ (judge ts).2 = us.length ∧ after initial us = some q ∧
      (vs = [] ∧ (judge ts).1 = finish ts.getLast? q ∨
        ∃ t r, vs = t :: r ∧ step q t = .error (judge ts).1) := by
  have hrun : run ts.getLast? initial 0 ts = ((judge ts).1, (judge ts).2) := rfl
  obtain ⟨us, vs, q, hts, hn, h⟩ := exists_after_of_run hrun
  rw [Nat.zero_add] at hn
  exact ⟨us, vs, q, hts, hn, h⟩

/-- The automaton reads no further than this token, and accepts nothing before it. -/
def Rejects (s : State) (t : Token) : Prop := ∃ k p, step s t = .error (.rejected k p)

theorem step_of_content (h : t.content = u.content) (hs : step s t = .ok s') :
    step s u = .ok s' := by
  obtain ⟨hk, hp⟩ := Prod.mk.inj h
  unfold step at hs ⊢
  rw [← hk, ← hp]
  split_ifs at hs ⊢ <;> exact hs

theorem Rejects.of_content (h : t.content = u.content) (hs : Rejects s t) : Rejects s u := by
  obtain ⟨hk, hp⟩ := Prod.mk.inj h
  obtain ⟨k, p, hs⟩ := hs
  unfold step at hs
  unfold Rejects step
  rw [← hk, ← hp]
  split_ifs at hs ⊢
  · exact ⟨_, _, rfl⟩
  · cases hs
  · exact ⟨_, _, rfl⟩

theorem after_of_content (h : us.map content = vs.map content) (ha : after s us = some s') :
    after s vs = some s' := by
  induction us generalizing s vs with
  | nil =>
    obtain rfl : vs = [] := List.map_eq_nil_iff.mp h.symm
    exact ha
  | cons t us ih =>
    obtain ⟨u, ws, rfl, hu, hws⟩ := List.map_eq_cons_iff.mp h.symm
    rw [after] at ha
    cases hs : step s t with
    | error v =>
      rw [hs] at ha
      cases ha
    | ok q =>
      rw [hs] at ha
      rw [after, step_of_content hu.symm hs]
      exact ih hws.symm ha

/-- Behind a rejected token nothing helps. -/
theorem run_ne_accepted (ha : after s us = some s') (hr : Rejects s' t) :
    (run last s n (us ++ t :: vs)).1 ≠ .accepted := by
  obtain ⟨k, p, hs⟩ := hr
  rw [run_append_of_after ha, run_of_error hs]
  simp

/-- Words behind which an expression ends. -/
def completion (s : State) : List (TokenKind × String) :=
  (if s.expecting then [(.number, "0")] else []) ++ List.replicate s.depth (.parentheses, ")")

theorem lexeme_of_mem_completion {w : TokenKind × String} (h : w ∈ completion s) :
    Lexeme w.1 w.2.toList := by
  rcases List.mem_append.mp h with h | h
  · split_ifs at h
    · rw [List.mem_singleton.mp h]
      exact .whole (isDigits_singleton (c := '0') (by decide))
    · cases h
  · rw [List.eq_of_mem_replicate h]
    exact .parenthesis (c := ')') (by decide)

theorem run_closings {d : Nat} (h : ts.map content = List.replicate d (.parentheses, ")")) :
    (run last ⟨false, d⟩ n ts).1 = .accepted := by
  induction d generalizing n ts with
  | zero =>
    obtain rfl : ts = [] := List.map_eq_nil_iff.mp h
    rfl
  | succ d ih =>
    obtain ⟨t, us, rfl, ht, hus⟩ := List.map_eq_cons_iff.mp h
    rw [run_of_ok (step_closing (Prod.mk.inj ht))]
    exact ih hus

theorem run_completion (h : ts.map content = completion s) :
    (run last s n ts).1 = .accepted := by
  obtain ⟨expecting, d⟩ := s
  cases expecting with
  | false => exact run_closings h
  | true =>
    obtain ⟨t, us, rfl, ht, hus⟩ := List.map_eq_cons_iff.mp h
    rw [run_of_ok (step_number (Prod.mk.inj ht).1)]
    exact run_closings hus

end DecimalComma.Automaton

namespace DecimalComma.Session
open Grammar Automaton Token

/-- Some expression begins with tokens that say the same. -/
def Viable (ts : List Token) : Prop :=
  ∃ source e, ts.map content <+: (Token.scan source).map content ∧ Expr.parse source = .ok e

/-- Tokens of a source that the automaton gets through are viable. -/
theorem viable_of_after {source : String} {us vs : List Token} {q : State}
    (h : Token.scan source = us ++ vs) (ha : after initial us = some q) : Viable us := by
  have hwords : ∀ w ∈ us.map content ++ completion q, Lexeme w.1 w.2.toList := by
    intro w hw
    rcases List.mem_append.mp hw with hw | hw
    · obtain ⟨t, ht, rfl⟩ := List.mem_map.mp hw
      have hmem : t ∈ Token.scan source := h ▸ List.mem_append_left vs ht
      exact ((tokenization_scan source).reads t hmem).lexeme
    · exact lexeme_of_mem_completion hw
  obtain ⟨ts, hts, hc⟩ := exists_scan_spaced hwords 0
  obtain ⟨us', cs, rfl, hus, hcs⟩ := List.map_eq_append_iff.mp hc
  have hscan : Token.scan (String.ofList (spaced (us.map content ++ completion q))) = us' ++ cs := by
    rw [scan_eq_iff, String.toList_ofList]
    exact hts
  have hjudge : (judge (us' ++ cs)).1 = .accepted := by
    rw [judge, run_append_of_after (after_of_content hus.symm ha)]
    exact run_completion hcs
  rw [← hscan] at hjudge
  obtain ⟨e, he⟩ := exists_parse_of_judge hjudge
  refine ⟨_, e, ?_, he⟩
  rw [hscan, hc]
  exact List.prefix_append _ _

/-- With a token that is rejected they are not. -/
theorem not_viable_of_rejects {us : List Token} {t : Token} {q : State}
    (ha : after initial us = some q) (hr : Rejects q t) : ¬ Viable (us ++ [t]) := by
  intro hx
  obtain ⟨source, e, ⟨r, hp⟩, he⟩ := hx
  rw [List.map_append, List.append_assoc] at hp
  obtain ⟨us', ts, hts, hus, hmap⟩ := List.map_eq_append_iff.mp hp.symm
  obtain ⟨t', vs, rfl, ht, -⟩ := List.map_eq_cons_iff.mp hmap
  have hjudge := judge_of_parse he
  rw [hts] at hjudge
  exact run_ne_accepted (after_of_content hus.symm ha) (hr.of_content ht.symm) hjudge

/-- A source that is no expression is given up as early as it can be: the tokens before the cursor
are viable and, if there is a token under the cursor, they are not with it. -/
theorem viable_of_parse_error {source : String} {error : SyntaxError}
    (h : Expr.parse source = .error error) :
    ∃ i, (start (Token.scan source)).read .additive = (.error error, on (Token.scan source) i) ∧
      i ≤ (Token.scan source).length ∧ Viable ((Token.scan source).take i) ∧
      (i < (Token.scan source).length → ¬ Viable ((Token.scan source).take (i + 1))) := by
  have hread := read_start_eq source
  have hverdict := ofResult_parse source
  rw [h] at hread hverdict
  obtain ⟨us, vs, q, hts, hi, ha, hend⟩ := exists_after_of_judge (Token.scan source)
  have htake : (Token.scan source).take us.length = us := by rw [hts, List.take_left]
  refine ⟨us.length, by rw [hread, hi], ?_, ?_, ?_⟩
  · rw [hts, List.length_append]
    omega
  · rw [htake]
    exact viable_of_after hts ha
  · intro hlt
    rcases hend with ⟨rfl, -⟩ | ⟨t, r, rfl, hs⟩
    · rw [hts, List.append_nil] at hlt
      exact absurd hlt (Nat.lt_irrefl _)
    · have hr : Rejects q t := ⟨_, _, hs.trans (congrArg _ hverdict.symm)⟩
      have htake' : (Token.scan source).take (us.length + 1) = us ++ [t] := by
        rw [hts, List.append_cons, List.take_left' (by simp)]
      rw [htake']
      exact not_viable_of_rejects ha hr

/-- An empty group is given up where it is closed. -/
theorem viable_of_parse_error_empty_group :
    ∃ error i, Expr.parse "2*()" = .error error ∧
      (start (Token.scan "2*()")).read .additive = (.error error, on (Token.scan "2*()") i) ∧
      i ≤ (Token.scan "2*()").length ∧ Viable ((Token.scan "2*()").take i) ∧
      (i < (Token.scan "2*()").length → ¬ Viable ((Token.scan "2*()").take (i + 1))) := by
  have hscan : Token.scan "2*()" = [⟨"2", 0, .number⟩, ⟨"*", 1, .operator⟩,
      ⟨"(", 2, .parentheses⟩, ⟨")", 3, .parentheses⟩] := by cbv
  have hjudge : (judge (Token.scan "2*()")).1 = .rejected .unexpectedToken (some 3) := by
    rw [hscan]
    rfl
  obtain ⟨error, he, -⟩ := exists_error_of_judge hjudge
  obtain ⟨i, hi⟩ := viable_of_parse_error he
  exact ⟨error, i, he, hi⟩

end DecimalComma.Session
