import DecimalComma.Proofs.Cursor
import DecimalComma.Proofs.Grammar.Automaton

/-! The parser as procedures on a cursor, which call each other and step past one token at a time. A
procedure answers and moves the cursor as reading from the tokens ahead does. The calls it takes are
counted, and there are at most four for each token that is passed and one for each level. -/
namespace DecimalComma.Grammar

variable {l : Level} {t : Token} {ts mid us : List Token} {e a : Expr} {op : Operation}
  {f : Failure}

theorem kind_ne_number_of_isOpening (h : t.isOpening) : t.kind ≠ .number := by
  rw [(isOpening_iff.mp h).1]
  decide

theorem parse_group_error (ho : t.isOpening) (h : parse .additive ts = .error f) :
    parse .atomic (t :: ts) = .error f := by
  have hn := kind_ne_number_of_isOpening ho
  rw [parse, dif_pos rfl]
  simp only [hn, if_false, ho, if_true, h]

theorem parse_unclosed (ho : t.isOpening) (h : Yields .additive ts e mid)
    (hc : takeClosing mid = .error f) : parse .atomic (t :: ts) = .error f := by
  have hn := kind_ne_number_of_isOpening ho
  obtain ⟨hs, hp⟩ := h
  rw [parse, dif_pos rfl]
  simp only [hn, if_false, ho, if_true, hp]
  split
  · simp_all
  · simp_all

theorem parse_operand_error (hl : l ≠ .atomic) (h : parse l.tighter ts = .error f) :
    parse l ts = .error f := by
  rw [parse.eq_def, dif_neg hl]
  simp only [h]

theorem parse_chain_error (hl : l ≠ .atomic) (h : Yields l.tighter ts a mid)
    (ho : takeOperation l mid = some (op, us)) (h' : parse l us = .error f) :
    parse l ts = .error f := by
  obtain ⟨hs, hp⟩ := h
  rw [parse.eq_def, dif_neg hl]
  simp only [hp]
  split
  · simp_all
  · rename_i ho'
    rw [ho] at ho'
    cases ho'
    simp only [h']

theorem Operand.rank_lt {m : Level} (hm : Operand l m) : m.rank < l.rank ∧ l.rank ≤ 3 := by
  cases hm <;> decide

theorem Yields.suffix (h : Yields l ts e us) : us <:+ ts := by
  obtain ⟨vs, hts, -⟩ := yields_iff.mp h
  exact ⟨vs, hts.symm⟩

theorem yields_of_parse {p : Parsed ts} (h : parse l ts = .ok p) : Yields l ts p.expr p.rest :=
  ⟨p.shorter, h⟩

theorem takeOperation_suffix (h : takeOperation l ts = some (op, us)) : us <:+ ts := by
  obtain ⟨t, rfl, -⟩ := takeOperation_eq_some_iff.mp h
  exact List.suffix_cons t us

/-- What is left at a failure are some of the last tokens. -/
theorem suffix_of_parse_error (h : parse l ts = .error f) : f.rest <:+ ts := by
  fun_induction parse l ts with
  | case1 =>
    cases h
    exact List.suffix_rfl
  | case2 => cases h
  | case3 t ts _ _ f' hp ih =>
    cases h
    exact (ih hp).trans (List.suffix_cons t ts)
  | case4 t ts _ _ content hp f' hc =>
    cases h
    rw [eq_of_takeClosing_error hc]
    exact (yields_of_parse hp).suffix.trans (List.suffix_cons t ts)
  | case5 => cases h
  | case6 =>
    cases h
    exact List.suffix_rfl
  | case7 _ _ _ _ hp ih =>
    cases h
    exact ih hp
  | case8 => cases h
  | case9 l ts hl left hp op rest ho f' hq _ ih =>
    cases h
    exact (ih hq).trans ((takeOperation_suffix ho).trans (yields_of_parse hp).suffix)
  | case10 => cases h

end DecimalComma.Grammar

namespace DecimalComma.Session
open Grammar

variable {s s' r r' : Session} {l m : Level} {t : Token} {e a b : Expr} {op : Operation}
  {f : Failure} {error : SyntaxError} {mid rest : List Token}

/-- A parenthesis that is missing is missed at the token under the cursor or, behind the end, at
the last one. -/
theorem close_eq (s : Session) : s.close =
    if s.current.any (·.isClosing) then (.ok (), s.forward)
    else (.error (.unclosed (((s.current.or s.last).map (·.position)).getD 0)), s) := by
  have herror {f : Failure} (h : takeClosing s.rest = .error f) :
      s.close = (.error (.unclosed (((s.current.or s.last).map (·.position)).getD 0)), s) := by
    rw [close, h, eq_of_takeClosing_error h, Cursor.current_eq_head?]
    exact congrArg (Prod.mk _) (Cursor.moveTo_rest s)
  cases hcur : s.current with
  | none =>
    rw [hcur] at herror
    exact herror (by rw [Cursor.rest_eq_nil hcur, takeClosing])
  | some t =>
    have hrest := Cursor.rest_of_current hcur
    rw [hcur] at herror
    rw [Option.any_some]
    split_ifs with hc
    · rw [close, hrest, takeClosing, if_pos hc]
      exact congrArg (Prod.mk _) (Cursor.moveTo_forward_rest hcur)
    · exact herror (by rw [hrest, takeClosing, if_neg hc])

theorem close_of_current_none (h : s.current = none) :
    s.close = (.error (.unclosed ((s.last.map (·.position)).getD 0)), s) := by
  rw [close_eq, h]
  rfl

theorem match?_eq (s : Session) (l : Level) : s.match? l =
    match s.current.bind (operation? l) with
    | none => (none, s)
    | some op => (some op, s.forward) := by
  cases hcur : s.current with
  | none => rw [match?, Cursor.rest_eq_nil hcur, takeOperation, Option.bind_none]
  | some t =>
    rw [match?, Cursor.rest_of_current hcur, takeOperation, Option.bind_some]
    cases operation? l t with
    | none => rfl
    | some op => exact congrArg (Prod.mk _) (Cursor.moveTo_forward_rest hcur)

theorem exists_current_of_close (h : s.close = (.ok (), r)) :
    ∃ t, s.current = some t ∧ t.isClosing ∧ r = s.forward := by
  rw [close_eq] at h
  by_cases hc : s.current.any (·.isClosing)
  · rw [if_pos hc] at h
    cases h
    obtain ⟨t, ht, hk⟩ := (Option.any_eq_true _ _).mp hc
    exact ⟨t, ht, hk, rfl⟩
  · rw [if_neg hc] at h
    cases h

theorem eq_of_close_error (h : s.close = (.error error, r)) : error.kind = .imbalanced ∧ r = s := by
  rw [close_eq] at h
  by_cases hc : s.current.any (·.isClosing)
  · rw [if_pos hc] at h
    cases h
  · rw [if_neg hc] at h
    cases h
    exact ⟨rfl, rfl⟩

theorem exists_current_of_match? (h : s.match? l = (some op, r)) :
    ∃ t, s.current = some t ∧ operation? l t = some op ∧ r = s.forward := by
  rw [match?_eq] at h
  split at h
  · cases h
  · rename_i hop
    cases h
    obtain ⟨t, ht, ho⟩ := Option.bind_eq_some_iff.mp hop
    exact ⟨t, ht, ho, rfl⟩

theorem eq_of_match?_none (h : s.match? l = (none, r)) : r = s := by
  rw [match?_eq] at h
  split at h
  · cases h
    rfl
  · cases h

theorem read_moveTo_of_yields (h : mid <:+ s.rest) (hy : Yields l mid e rest) :
    read (s.moveTo mid) l = (.ok e, s.moveTo rest) := by
  have hy' : Yields l (s.moveTo mid).rest e rest := by rwa [Cursor.rest_moveTo h]
  rw [read_eq_ok_iff_yields.mpr ⟨rest, hy', rfl⟩, Cursor.moveTo_moveTo h hy.suffix]

theorem read_moveTo_of_error (h : mid <:+ s.rest) (hp : parse l mid = .error f) :
    read (s.moveTo mid) l = (.error (.ofFailure s.last f), s.moveTo f.rest) := by
  have hp' : parse l (s.moveTo mid).rest = .error f := by rwa [Cursor.rest_moveTo h]
  rw [read_of_parse_error hp', Cursor.moveTo_moveTo h (suffix_of_parse_error hp),
    Cursor.last_moveTo]

theorem close_moveTo_of_ok (h : mid <:+ s.rest) (hc : takeClosing mid = .ok rest) :
    close (s.moveTo mid) = (.ok (), s.moveTo rest) := by
  obtain ⟨t, rfl, -⟩ := takeClosing_eq_ok_iff.mp hc
  rw [close, Cursor.rest_moveTo h, hc]
  exact congrArg (Prod.mk _) (Cursor.moveTo_moveTo h (List.suffix_cons t rest))

theorem close_moveTo_of_error (h : mid <:+ s.rest) (hc : takeClosing mid = .error f) :
    close (s.moveTo mid) = (.error (.ofFailure s.last f), s.moveTo f.rest) := by
  obtain rfl := eq_of_takeClosing_error hc
  rw [close, Cursor.rest_moveTo h, hc]
  exact congrArg (Prod.mk _) (Cursor.moveTo_moveTo h List.suffix_rfl)

theorem match?_moveTo_of_none (h : mid <:+ s.rest) (ho : takeOperation l mid = none) :
    match? (s.moveTo mid) l = (none, s.moveTo mid) := by
  rw [match?, Cursor.rest_moveTo h, ho]

theorem match?_moveTo_of_some (h : mid <:+ s.rest) (ho : takeOperation l mid = some (op, rest)) :
    match? (s.moveTo mid) l = (some op, s.moveTo rest) := by
  rw [match?, Cursor.rest_moveTo h, ho]
  exact congrArg (Prod.mk _) (Cursor.moveTo_moveTo h (takeOperation_suffix ho))

theorem read_of_current_none (h : s.current = none) (l : Level) :
    s.read l = (.error (.operandExpected none), s) := by
  have hrest := Cursor.rest_eq_nil h
  have hp : parse l s.rest = .error ⟨.operand, s.rest⟩ := by rw [hrest, parse_nil]
  rw [read_of_parse_error hp, Cursor.moveTo_rest, hrest]
  rfl

/-- An atom is the number or the group under the cursor. -/
theorem read_atomic (s : Session) : s.read .atomic = match s.current with
    | none => (.error (.operandExpected none), s)
    | some t =>
      if t.kind = .number then (.ok (.number t.value), s.forward)
      else if t.isOpening then match read s.forward .additive with
        | (.error error, r) => (.error error, r)
        | (.ok e, r) => match r.close with
          | (.error error, r') => (.error error, r')
          | (.ok (), r') => (.ok (.group e), r')
      else (.error (.operandExpected (some t)), s) := by
  cases hcur : s.current with
  | none => exact read_of_current_none hcur .atomic
  | some t =>
    have hrest := Cursor.rest_of_current hcur
    have hsuffix := Cursor.forward_rest_suffix hcur
    rw [← Cursor.moveTo_forward_rest hcur]
    generalize s.forward.rest = ts at hrest hsuffix
    -- Both sides are told from `s` alone: what they leave is `s`, moved on to some last tokens.
    have hs : s.moveTo (t :: ts) = s := by rw [← hrest, Cursor.moveTo_rest]
    have hall : t :: ts <:+ s.rest := by rw [hrest]
    conv_lhs => rw [← hs]
    dsimp only
    split_ifs with hn ho
    · exact read_moveTo_of_yields hall (yields_number hn)
    · cases hp : parse .additive ts with
      | error f =>
        rw [read_moveTo_of_error hsuffix hp,
          read_moveTo_of_error hall (parse_group_error ho hp)]
      | ok p =>
        have hy := yields_of_parse hp
        have hmid := hy.suffix.trans hsuffix
        rw [read_moveTo_of_yields hsuffix hy]
        dsimp only
        cases hc : takeClosing p.rest with
        | error f =>
          rw [close_moveTo_of_error hmid hc,
            read_moveTo_of_error hall (parse_unclosed ho hy hc)]
        | ok rest =>
          obtain ⟨c, hr, hk⟩ := takeClosing_eq_ok_iff.mp hc
          rw [close_moveTo_of_ok hmid hc,
            read_moveTo_of_yields hall (yields_group (isOpening_iff.mp ho) (hr ▸ hy) hk)]
    · rw [read_moveTo_of_error hall (parse_of_stray hn ho .atomic ts), hs]
      rfl

/-- Any other level is its operand and, behind an operator of its own, the level again. -/
theorem read_of_operand (hm : Operand l m) (s : Session) : s.read l = match s.read m with
    | (.error error, r) => (.error error, r)
    | (.ok a, r) => match r.match? l with
      | (none, r') => (.ok a, r')
      | (some op, r') => match r'.read l with
        | (.error error, s') => (.error error, s')
        | (.ok b, s') => (.ok (.binary op a b), s') := by
  obtain ⟨hl, rfl⟩ := operand_iff.mp hm
  have hall : s.rest <:+ s.rest := List.suffix_rfl
  rw [← Cursor.moveTo_rest s]
  cases hp : parse l.tighter s.rest with
  | error f =>
    rw [read_moveTo_of_error hall hp, read_moveTo_of_error hall (parse_operand_error hl hp)]
  | ok p =>
    have hy := yields_of_parse hp
    rw [read_moveTo_of_yields hall hy]
    dsimp only
    cases ho : takeOperation l p.rest with
    | none =>
      rw [match?_moveTo_of_none hy.suffix ho, read_moveTo_of_yields hall (yields_operand hl hy ho)]
    | some q =>
      obtain ⟨op, us⟩ := q
      have hus := (takeOperation_suffix ho).trans hy.suffix
      rw [match?_moveTo_of_some hy.suffix ho]
      dsimp only
      cases hq : parse l us with
      | error f =>
        rw [read_moveTo_of_error hus hq,
          read_moveTo_of_error hall (parse_chain_error hl hy ho hq)]
      | ok q =>
        have hy' := yields_of_parse hq
        rw [read_moveTo_of_yields hus hy', read_moveTo_of_yields hall (yields_chain hl hy ho hy')]

/-- A rule called on a session, what it answers, the session it leaves, and the number of calls of
rules that it takes, its own included. -/
inductive Descent : Session → Level → Except SyntaxError Expr → Session → Nat → Prop where
  | exhausted {s : Session} (h : s.current = none) :
      Descent s .atomic (.error (.operandExpected none)) s 1
  | stray {s : Session} {t : Token} (h : s.current = some t) (hn : t.kind ≠ .number)
      (ho : ¬ t.isOpening) : Descent s .atomic (.error (.operandExpected (some t))) s 1
  | number {s : Session} {t : Token} (h : s.current = some t) (hn : t.kind = .number) :
      Descent s .atomic (.ok (.number t.value)) s.forward 1
  | content {s r : Session} {t : Token} {error : SyntaxError} {n : Nat} (h : s.current = some t)
      (ho : t.isOpening) (content : Descent s.forward .additive (.error error) r n) :
      Descent s .atomic (.error error) r (n + 1)
  | unclosed {s r r' : Session} {t : Token} {e : Expr} {error : SyntaxError} {n : Nat}
      (h : s.current = some t) (ho : t.isOpening)
      (content : Descent s.forward .additive (.ok e) r n) (hc : r.close = (.error error, r')) :
      Descent s .atomic (.error error) r' (n + 1)
  | group {s r r' : Session} {t : Token} {e : Expr} {n : Nat} (h : s.current = some t)
      (ho : t.isOpening) (content : Descent s.forward .additive (.ok e) r n)
      (hc : r.close = (.ok (), r')) : Descent s .atomic (.ok (.group e)) r' (n + 1)
  | left {l m : Level} {s r : Session} {error : SyntaxError} {n : Nat} (hm : Operand l m)
      (left : Descent s m (.error error) r n) : Descent s l (.error error) r (n + 1)
  | operand {l m : Level} {s r r' : Session} {a : Expr} {n : Nat} (hm : Operand l m)
      (left : Descent s m (.ok a) r n) (ho : r.match? l = (none, r')) :
      Descent s l (.ok a) r' (n + 1)
  | right {l m : Level} {s r r' s' : Session} {a : Expr} {op : Operation} {error : SyntaxError}
      {n k : Nat} (hm : Operand l m) (left : Descent s m (.ok a) r n)
      (ho : r.match? l = (some op, r')) (right : Descent r' l (.error error) s' k) :
      Descent s l (.error error) s' (n + k + 1)
  | chain {l m : Level} {s r r' s' : Session} {a b : Expr} {op : Operation} {n k : Nat}
      (hm : Operand l m) (left : Descent s m (.ok a) r n) (ho : r.match? l = (some op, r'))
      (right : Descent r' l (.ok b) s' k) : Descent s l (.ok (.binary op a b)) s' (n + k + 1)

variable {x : Except SyntaxError Expr} {n : Nat}

/-- A descent ends in what reading answers. -/
theorem Descent.read_eq (h : Descent s l x r n) : s.read l = (x, r) := by
  induction h with
  | exhausted h => simp only [read_atomic, h]
  | stray h hn ho => simp only [read_atomic, h, if_neg hn, if_neg ho]
  | number h hn => simp only [read_atomic, h, if_pos hn]
  | content h ho _ ih =>
    have hn := kind_ne_number_of_isOpening ho
    simp only [read_atomic, h, if_neg hn, if_pos ho, ih]
  | unclosed h ho _ hc ih =>
    have hn := kind_ne_number_of_isOpening ho
    simp only [read_atomic, h, if_neg hn, if_pos ho, ih, hc]
  | group h ho _ hc ih =>
    have hn := kind_ne_number_of_isOpening ho
    simp only [read_atomic, h, if_neg hn, if_pos ho, ih, hc]
  | left hm _ ih =>
    rw [read_of_operand hm]
    simp only [ih]
  | operand hm _ ho ih =>
    rw [read_of_operand hm]
    simp only [ih, ho]
  | right hm _ ho _ ih ih' =>
    rw [read_of_operand hm]
    simp only [ih, ho, ih']
  | chain hm _ ho _ ih ih' =>
    rw [read_of_operand hm]
    simp only [ih, ho, ih']

/-- A descent walks the cursor past tokens, past one at least if it answers an expression, and the
calls that it takes are bounded by the tokens it walks past. -/
theorem Descent.exists_walk (h : Descent s l x r n) :
    ∃ k, Cursor.Walk s k r ∧ n ≤ 4 * k + l.rank + 1 ∧ ∀ e, x = .ok e → 0 < k := by
  -- Rules call each other without a step in between only down the levels, of which there are four.
  induction h with
  | exhausted h => exact ⟨0, .stay, by omega, by simp⟩
  | stray h hn ho => exact ⟨0, .stay, by omega, by simp⟩
  | number h hn => exact ⟨1, .one h, by omega, fun _ _ => Nat.one_pos⟩
  | content h ho _ ih =>
    obtain ⟨k, hwalk, hn, -⟩ := ih
    refine ⟨k + 1, .step h hwalk, ?_, fun _ _ => k.succ_pos⟩
    simp only [Level.rank] at hn ⊢
    omega
  | unclosed h ho _ hc ih =>
    obtain ⟨k, hwalk, hn, -⟩ := ih
    obtain ⟨-, rfl⟩ := eq_of_close_error hc
    refine ⟨k + 1, .step h hwalk, ?_, fun _ _ => k.succ_pos⟩
    simp only [Level.rank] at hn ⊢
    omega
  | group h ho _ hc ih =>
    obtain ⟨k, hwalk, hn, -⟩ := ih
    obtain ⟨t, ht, -, rfl⟩ := exists_current_of_close hc
    refine ⟨k + 1 + 1, .step h (hwalk.trans (.one ht)), ?_, fun _ _ => Nat.succ_pos _⟩
    simp only [Level.rank] at hn ⊢
    omega
  | left hm _ ih =>
    obtain ⟨k, hwalk, hn, -⟩ := ih
    have hrank := hm.rank_lt
    exact ⟨k, hwalk, by omega, by simp⟩
  | operand hm _ ho ih =>
    obtain ⟨k, hwalk, hn, hpos⟩ := ih
    obtain rfl := eq_of_match?_none ho
    have hrank := hm.rank_lt
    exact ⟨k, hwalk, by omega, fun _ _ => hpos _ rfl⟩
  | right hm _ ho _ ih ih' =>
    obtain ⟨j, hwalk, hn, -⟩ := ih
    obtain ⟨k, hwalk', hn', -⟩ := ih'
    obtain ⟨t, ht, -, rfl⟩ := exists_current_of_match? ho
    have hrank := hm.rank_lt
    exact ⟨j + (k + 1), hwalk.trans (.step ht hwalk'), by omega, by simp⟩
  | chain hm _ ho _ ih ih' =>
    obtain ⟨j, hwalk, hn, -⟩ := ih
    obtain ⟨k, hwalk', hn', -⟩ := ih'
    obtain ⟨t, ht, -, rfl⟩ := exists_current_of_match? ho
    have hrank := hm.rank_lt
    exact ⟨j + (k + 1), hwalk.trans (.step ht hwalk'), by omega, fun _ _ => by omega⟩

theorem Descent.length_rest_lt (h : Descent s l (.ok e) r n) : r.rest.length < s.rest.length := by
  obtain ⟨k, hwalk, -, hpos⟩ := h.exists_walk
  have hlen := hwalk.length_rest
  have := hpos e rfl
  omega

/-- Every rule comes to an end, wherever it is called: what it calls itself has fewer tokens ahead,
or as many and a tighter level. -/
theorem exists_descent (s : Session) (l : Level) : ∃ x r n, Descent s l x r n := by
  by_cases hl : l = .atomic
  · subst hl
    cases hcur : s.current with
    | none => exact ⟨_, _, _, .exhausted hcur⟩
    | some t =>
      by_cases hn : t.kind = .number
      · exact ⟨_, _, _, .number hcur hn⟩
      by_cases ho : t.isOpening
      · have hlt : s.forward.rest.length < s.rest.length := by
          rw [Cursor.rest_of_current hcur]
          exact Nat.lt_succ_self _
        obtain ⟨x, r, n, hx⟩ := exists_descent s.forward .additive
        cases x with
        | error error => exact ⟨_, _, _, .content hcur ho hx⟩
        | ok e =>
          rcases hc : r.close with ⟨error | u, r'⟩
          · exact ⟨_, _, _, .unclosed hcur ho hx hc⟩
          · exact ⟨_, _, _, .group hcur ho hx hc⟩
      · exact ⟨_, _, _, .stray hcur hn ho⟩
  · have hm := operand_tighter hl
    obtain ⟨x, r, n, hx⟩ := exists_descent s l.tighter
    cases x with
    | error error => exact ⟨_, _, _, .left hm hx⟩
    | ok a =>
      rcases ho : r.match? l with ⟨- | op, r'⟩
      · exact ⟨_, _, _, .operand hm hx ho⟩
      · have hlt : r'.rest.length < s.rest.length := by
          obtain ⟨t, ht, -, rfl⟩ := exists_current_of_match? ho
          have hlen := hx.length_rest_lt
          rw [Cursor.rest_of_current ht, List.length_cons] at hlen
          omega
        obtain ⟨y, s', k, hy⟩ := exists_descent r' l
        cases y with
        | error error => exact ⟨_, _, _, .right hm hx ho hy⟩
        | ok b => exact ⟨_, _, _, .chain hm hx ho hy⟩
termination_by (s.rest.length, l.rank)
decreasing_by
  · exact Prod.Lex.left _ _ hlt
  · exact Prod.Lex.right _ (Level.rank_tighter_lt hl)
  · exact Prod.Lex.left _ _ hlt

/-- Reading is what the rules do. -/
theorem read_eq_iff_descent : s.read l = (x, r) ↔ ∃ n, Descent s l x r n := by
  constructor
  · intro h
    obtain ⟨y, r', n, hd⟩ := exists_descent s l
    obtain ⟨rfl, rfl⟩ := Prod.mk.inj (h.symm.trans hd.read_eq)
    exact ⟨n, hd⟩
  · intro hx
    obtain ⟨n, hd⟩ := hx
    exact hd.read_eq

end DecimalComma.Session
