import DecimalComma.Calculation
import DecimalComma.Proofs.Grammar.Phrase
import DecimalComma.Proofs.Token.Tokenization

/-! An automaton that reads tokens one by one and counts open groups. It tells where an expression ends
and what is wrong where none does; the parser, with all its levels, says the same. -/
namespace DecimalComma.Automaton
open Grammar

/-- Whether an operand is expected, and how many groups are open. -/
structure State where
  expecting : Bool
  depth : Nat

/-- How a run ends: behind an expression, or with an error of some kind at some position. -/
inductive Verdict where
  | accepted
  | rejected (kind : ErrorKind) (position : Option Int)

def initial : State := ⟨true, 0⟩

/-- The state behind a token, or the verdict before it. -/
def step (s : State) (t : Token) : Except Verdict State :=
  if s.expecting then
    if t.kind = .number then .ok { s with expecting := false }
    else if t.kind = .parentheses ∧ t.payload = "(" then .ok { s with depth := s.depth + 1 }
    else .error (.rejected .unexpectedToken (some t.position))
  else if t.kind = .operator then .ok { s with expecting := true }
  else if (t.kind = .parentheses ∧ t.payload = ")") ∧ 0 < s.depth then
    .ok { s with depth := s.depth - 1 }
  else if s.depth = 0 then .error .accepted
  else .error (.rejected .imbalanced (some t.position))

/-- The verdict when the tokens are used up; the last of them is the culprit in an open group. -/
def finish (last : Option Token) (s : State) : Verdict :=
  if s.expecting then .rejected .unexpectedToken none
  else if s.depth = 0 then .accepted
  else .rejected .imbalanced (last.map (·.position))

/-- The verdict on the tokens ahead, and the index it is given at. -/
def run (last : Option Token) (s : State) (index : Nat) : List Token → Verdict × Nat
  | [] => (finish last s, index)
  | t :: ts => match step s t with
    | .ok s' => run last s' (index + 1) ts
    | .error v => (v, index)

def judge (ts : List Token) : Verdict × Nat := run ts.getLast? initial 0 ts

/-- The report on the tokens behind an accepted expression, if there are any. -/
def leftover (ts : List Token) : List Report :=
  match (judge ts).1 with
  | .accepted => if (judge ts).2 < ts.length then [.ignored (ts.length - (judge ts).2)] else []
  | .rejected .. => []

/-- The verdict that a result of parsing amounts to. -/
def Verdict.ofResult : Except SyntaxError Expr → Verdict
  | .ok _ => .accepted
  | .error e => .rejected e.kind e.position

/-- The verdict that a failure of the grammar amounts to. -/
def Verdict.ofFailure (last : Option Token) (f : Failure) : Verdict :=
  match f.missing with
  | .operand => .rejected .unexpectedToken (f.rest.head?.map (·.position))
  | .closing => .rejected .imbalanced ((f.rest.head?.or last).map (·.position))

variable {last : Option Token} {s s' : State} {t : Token} {ts : List Token} {n d : Nat}

theorem run_of_ok (h : step s t = .ok s') : run last s n (t :: ts) = run last s' (n + 1) ts := by
  rw [run, h]

theorem run_of_error {v : Verdict} (h : step s t = .error v) :
    run last s n (t :: ts) = (v, n) := by
  rw [run, h]

theorem step_number (h : t.kind = .number) : step ⟨true, d⟩ t = .ok ⟨false, d⟩ := by
  simp [step, h]

theorem step_opening (h : t.kind = .parentheses ∧ t.payload = "(") :
    step ⟨true, d⟩ t = .ok ⟨true, d + 1⟩ := by
  simp [step, h.1, h.2]

theorem step_unexpected (hn : t.kind ≠ .number) (ho : ¬ (t.kind = .parentheses ∧ t.payload = "(")) :
    step ⟨true, d⟩ t = .error (.rejected .unexpectedToken (some t.position)) := by
  unfold step
  rw [if_pos rfl, if_neg hn, if_neg ho]

theorem step_operator (h : t.kind = .operator) : step ⟨false, d⟩ t = .ok ⟨true, d⟩ := by
  simp [step, h]

theorem step_closing (h : t.kind = .parentheses ∧ t.payload = ")") :
    step ⟨false, d + 1⟩ t = .ok ⟨false, d⟩ := by
  simp [step, h.1, h.2]

theorem step_unclosed (ho : t.kind ≠ .operator) (hc : ¬ (t.kind = .parentheses ∧ t.payload = ")")) :
    step ⟨false, d + 1⟩ t = .error (.rejected .imbalanced (some t.position)) := by
  unfold step
  rw [if_neg (by simp), if_neg ho, if_neg (fun h => hc h.1), if_neg (by simp)]

theorem step_behind (ho : t.kind ≠ .operator) : step ⟨false, 0⟩ t = .error .accepted := by
  unfold step
  rw [if_neg (by simp), if_neg ho, if_neg (by simp), if_pos rfl]

/-- At any depth, the automaton goes through a derivation from the operand to the operator state. -/
theorem run_of_derives (last : Option Token) {l : Level} {us : List Token} {e : Expr}
    (h : Derives l us e) (d n : Nat) (rest : List Token) :
    run last ⟨true, d⟩ n (us ++ rest) = run last ⟨false, d⟩ (n + us.length) rest := by
  induction h generalizing d n rest with
  | number h => exact run_of_ok (step_number h)
  | group ho _ hc ih =>
    rw [List.cons_append, List.append_assoc, run_of_ok (step_opening ho), ih,
      List.singleton_append, run_of_ok (step_closing hc)]
    congr 1
    simp only [List.length_cons, List.length_append, List.length_nil]
    omega
  | operand _ _ ih => exact ih d n rest
  | chain _ _ hk _ _ ih ih' =>
    rw [List.append_assoc, ih, List.cons_append, run_of_ok (step_operator hk), ih']
    congr 1
    simp only [List.length_append, List.length_cons]
    omega

/-- The symbols of all operators are known. -/
def Known (ts : List Token) : Prop := ∀ t ∈ ts, t.kind = .operator → Absorbs .additive t

theorem Known.of_append (us : List Token) (h : Known (us ++ ts)) : Known ts :=
  fun t ht => h t (List.mem_append_right us ht)

theorem Known.not_operator (hk : Known (t :: ts)) (hs : Stops .additive (t :: ts)) :
    t.kind ≠ .operator :=
  fun h => hs t ts rfl (hk t (by simp) h)

/-- Behind the content of a group, whatever does not close it is the error. -/
theorem run_of_takeClosing_error (last : Option Token) (d n : Nat) {f : Failure} (hk : Known ts)
    (hs : Stops .additive ts) (h : takeClosing ts = .error f) :
    f.rest = ts ∧ run last ⟨false, d + 1⟩ n ts = (.ofFailure last f, n) := by
  cases ts with
  | nil =>
    cases h
    exact ⟨rfl, rfl⟩
  | cons t ts =>
    rw [takeClosing] at h
    split_ifs at h with hc
    cases h
    rw [isClosing_iff] at hc
    exact ⟨rfl, run_of_error (step_unclosed (hk.not_operator hs) hc)⟩

/-- At any depth, the automaton stops with the error that the parser fails with, and there. -/
theorem run_of_parse_error (last : Option Token) {l : Level} {f : Failure} (hk : Known ts)
    (h : parse l ts = .error f) (d n : Nat) : ∃ us, ts = us ++ f.rest ∧
      run last ⟨true, d⟩ n ts = (.ofFailure last f, n + us.length) := by
  fun_induction parse l ts generalizing d n with
  | case1 =>
    cases h
    exact ⟨[], rfl, rfl⟩
  | case2 => cases h
  | case3 t ts _ ho f' hp ih =>
    cases h
    obtain ⟨us, hts, hrun⟩ := ih (Known.of_append [t] hk) hp (d + 1) (n + 1)
    refine ⟨t :: us, by rw [hts, List.cons_append], ?_⟩
    rw [run_of_ok (step_opening (isOpening_iff.mp ho)), hrun, List.length_cons]
    congr 1
    omega
  | case4 t ts _ ho content hp f' hc ih =>
    cases h
    obtain ⟨us, hts, hd, hs⟩ := derives_of_parse hp
    have hk' : Known content.rest := by
      rw [hts] at hk
      exact Known.of_append (t :: us) hk
    obtain ⟨hf, hrun⟩ := run_of_takeClosing_error last d (n + 1 + us.length) hk' hs hc
    refine ⟨t :: us, by rw [hf, List.cons_append, ← hts], ?_⟩
    rw [run_of_ok (step_opening (isOpening_iff.mp ho)), hts, run_of_derives last hd, hrun,
      List.length_cons]
    congr 1
    omega
  | case5 => cases h
  | case6 t ts hn ho =>
    cases h
    exact ⟨[], rfl, run_of_error (step_unexpected hn (by rwa [isOpening_iff] at ho))⟩
  | case7 l ts hl f' hp ih =>
    cases h
    exact ih hk hp d n
  | case8 => cases h
  | case9 l ts hl left hp op rest ho f' hq ih ih' =>
    cases h
    obtain ⟨us, hts, hd, -⟩ := derives_of_parse hp
    obtain ⟨t, htl, ht, -⟩ := takeOperation_eq_some_iff.mp ho
    rw [htl] at hts
    have hk' : Known rest := by
      rw [hts] at hk
      exact Known.of_append [t] (Known.of_append us hk)
    obtain ⟨vs, hrest, hrun⟩ := ih' hk' hq d (n + us.length + 1)
    refine ⟨us ++ t :: vs, by rw [hts, hrest, List.append_assoc, List.cons_append], ?_⟩
    rw [hts, run_of_derives last hd, run_of_ok (step_operator ht), hrun]
    congr 1
    simp only [List.length_append, List.length_cons]
    omega
  | case10 => cases h

theorem judge_of_parse_ok {p : Parsed ts} (hk : Known ts) (h : parse .additive ts = .ok p) :
    ∃ us, ts = us ++ p.rest ∧ judge ts = (.accepted, us.length) := by
  obtain ⟨us, hts, hd, hs⟩ := derives_of_parse h
  refine ⟨us, hts, ?_⟩
  have hrun := run_of_derives ts.getLast? hd 0 0 p.rest
  rw [← hts, Nat.zero_add] at hrun
  rw [judge, initial, hrun]
  cases hr : p.rest with
  | nil => rfl
  | cons t r =>
    rw [hr] at hs hts
    have hk' : Known (t :: r) := by
      rw [hts] at hk
      exact Known.of_append us hk
    exact run_of_error (step_behind (hk'.not_operator hs))

theorem leftover_of_accepted (h : (judge ts).1 = .accepted) :
    leftover ts = if (ts.drop (judge ts).2).isEmpty then [] else
      [.ignored (ts.drop (judge ts).2).length] := by
  rw [leftover, h, List.length_drop]
  by_cases hlt : (judge ts).2 < ts.length
  · have hd : ¬ (ts.drop (judge ts).2).isEmpty := by simpa using hlt
    exact (if_pos hlt).trans (if_neg hd).symm
  · have hd : (ts.drop (judge ts).2).isEmpty := by simpa using hlt
    exact (if_neg hlt).trans (if_pos hd).symm

theorem leftover_of_rejected {k : ErrorKind} {p : Option Int}
    (h : (judge ts).1 = .rejected k p) : leftover ts = [] := by
  rw [leftover, h]

theorem judge_of_parse_error {f : Failure} (hk : Known ts) (h : parse .additive ts = .error f) :
    ∃ us, ts = us ++ f.rest ∧ judge ts = (.ofFailure ts.getLast? f, us.length) := by
  obtain ⟨us, hts, hrun⟩ := run_of_parse_error ts.getLast? hk h 0 0
  rw [Nat.zero_add] at hrun
  exact ⟨us, hts, hrun⟩

end DecimalComma.Automaton

namespace DecimalComma.Session
open Grammar Automaton

theorem known_scan (source : String) : Known (Token.scan source) := by
  intro t ht hk
  have hl := ((Token.tokenization_scan source).reads t ht).lexeme
  rw [hk] at hl
  obtain ⟨c, r, hw, hc | ⟨hc, -, rfl⟩ | hc⟩ := hl.exists_cons
  · cases hc.2
  · refine ⟨hk, ?_⟩
    rw [← String.ofList_toList (s := t.payload), hw]
    simp only [List.mem_cons, List.not_mem_nil, or_false] at hc
    rcases hc with rfl | rfl | rfl | rfl | rfl <;> decide
  · cases hc.2.1

theorem read_of_parse_error {l : Level} {s : Session} {f : Failure}
    (h : parse l s.rest = .error f) :
    s.read l = (.error (.ofFailure s.last f), s.moveTo f.rest) := by
  rw [read, h]
  rfl

theorem expression_of_read_ok {source : String} {e : Expr} {s : Session}
    (h : (start (Token.scan source)).read .additive = (.ok e, s)) :
    Calculation.expression source = ⟨.ok e, .tokenized source.length (Token.scan source).length ::
      if s.rest.isEmpty then [] else [.ignored s.rest.length]⟩ := by
  unfold Calculation.expression Calculation.tokens
  dsimp only
  rw [h]
  rfl

theorem expression_of_read_error {source : String} {e : SyntaxError} {s : Session}
    (h : (start (Token.scan source)).read .additive = (.error e, s)) :
    Calculation.expression source =
      ⟨.error e, [.tokenized source.length (Token.scan source).length]⟩ := by
  unfold Calculation.expression Calculation.tokens
  dsimp only
  rw [h]

theorem last_on (ts : List Token) (i : Nat) : (on ts i).last = ts.getLast? := by
  unfold Cursor.last Cursor.item?
  cases ts with
  | nil => rfl
  | cons t ts =>
    rw [if_pos (by simp [on]), List.getLast?_eq_getElem?]
    simp [on]

/-- A missing parenthesis has a culprit: there is a token where it is missing, or before. -/
theorem exists_culprit {l : Level} {ts : List Token} {f : Failure} (h : parse l ts = .error f)
    (hm : f.missing = .closing) : ∃ t, f.rest.head?.or ts.getLast? = some t := by
  cases ts with
  | nil =>
    rw [parse_nil] at h
    cases h
    cases hm
  | cons t ts =>
    cases f.rest with
    | nil =>
      rw [List.head?_nil, Option.none_or, List.getLast?_eq_some_getLast (by simp)]
      exact ⟨_, rfl⟩
    | cons u _ => exact ⟨u, rfl⟩

theorem ofResult_ofFailure {l : Level} {ts : List Token} {f : Failure}
    (h : parse l ts = .error f) :
    Verdict.ofResult (.error (.ofFailure ts.getLast? f)) = .ofFailure ts.getLast? f := by
  cases hm : f.missing with
  | operand =>
    unfold SyntaxError.ofFailure Verdict.ofFailure
    rw [hm]
    rfl
  | closing =>
    obtain ⟨u, hu⟩ := exists_culprit h hm
    unfold SyntaxError.ofFailure Verdict.ofFailure
    rw [hm]
    dsimp only
    rw [hu]
    rfl

/-- Reading from the start ends as the automaton does, with the cursor where it stopped. -/
theorem read_start {ts : List Token} (hk : Known ts) :
    Verdict.ofResult ((start ts).read .additive).1 = (judge ts).1 ∧
      ((start ts).read .additive).2 = on ts (judge ts).2 := by
  have hrest : (start ts).rest = ts := rest_on ts 0
  cases hp : parse .additive ts with
  | ok p =>
    obtain ⟨us, hts, hj⟩ := judge_of_parse_ok hk hp
    have hread : (start ts).read .additive = (.ok p.expr, on ts us.length) := by
      apply read_eq_ok_iff_yields.mpr
      refine ⟨p.rest, ?_, ?_⟩
      · rw [hrest]
        exact ⟨p.shorter, hp⟩
      · rw [← Nat.zero_add us.length]
        exact (moveTo_on (i := 0) hts).symm
    rw [hread, hj]
    exact ⟨rfl, rfl⟩
  | error f =>
    obtain ⟨us, hts, hj⟩ := judge_of_parse_error hk hp
    have hread : (start ts).read .additive =
        (.error (.ofFailure ts.getLast? f), on ts us.length) := by
      have hp' : parse .additive (start ts).rest = .error f := by
        rw [hrest]
        exact hp
      rw [read_of_parse_error hp', ← last_on ts 0, ← Nat.zero_add us.length]
      exact congrArg _ (moveTo_on (i := 0) hts)
    rw [hread, hj]
    exact ⟨ofResult_ofFailure hp, rfl⟩

/-- Parsing a source gives the automaton's verdict on its tokens, kind and position of the error
included. The cursor stays where the automaton stopped; an expression leaves the tokens from there on
alone, and says how many. -/
theorem parse_eq_judge (source : String) :
    Verdict.ofResult (Expr.parse source) = (judge (Token.scan source)).1 ∧
      (start (Token.scan source)).read .additive =
        (Expr.parse source, on (Token.scan source) (judge (Token.scan source)).2) ∧
      (Calculation.expression source).reports =
        .tokenized source.length (Token.scan source).length :: leftover (Token.scan source) := by
  obtain ⟨hv, hs⟩ := read_start (known_scan source)
  rcases hr : (start (Token.scan source)).read .additive with ⟨e | e, s⟩
  · rw [hr] at hv hs
    have he : Expr.parse source = .error e := by rw [Expr.parse, expression_of_read_error hr]
    rw [he, ← hv, ← hs, expression_of_read_error hr, leftover_of_rejected hv.symm]
    exact ⟨rfl, rfl, rfl⟩
  · rw [hr] at hv hs
    have he : Expr.parse source = .ok e := by rw [Expr.parse, expression_of_read_ok hr]
    have hrest : s.rest = (Token.scan source).drop (judge (Token.scan source)).2 := by
      rw [← rest_on, ← hs]
    rw [he, ← hv, ← hs, expression_of_read_ok hr, leftover_of_accepted hv.symm, hrest]
    exact ⟨rfl, rfl, rfl⟩

end DecimalComma.Session
