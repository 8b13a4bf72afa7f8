import DecimalComma.Proofs.Grammar.Reading
import DecimalComma.Proofs.Token.Relocation

/-! What parsing makes of tokens that are moved. Trees depend on what the tokens say alone, and an
error moves with the tokens; so a character of no token can be put in wherever it parts no number. -/
namespace DecimalComma

namespace Grammar
open Token

variable {l : Level} {ts us : List Token} {e : Expr}

/-- A derivation looks at the contents of its tokens only. -/
theorem Derives.of_content (h : Derives l ts e) (hc : ts.map content = us.map content) :
    Derives l us e := by
  induction h generalizing us with
  | number hk =>
    obtain ⟨u, vs, rfl, hu, hvs⟩ := List.map_eq_cons_iff.mp hc.symm
    obtain rfl : vs = [] := List.map_eq_nil_iff.mp hvs
    obtain ⟨hkind, hpayload⟩ := Prod.mk.inj hu
    have hd := Derives.number (hkind.trans hk)
    unfold value decimal at hd ⊢
    rwa [hpayload] at hd
  | group ho _ hcl ih =>
    rw [List.map_cons, List.map_append] at hc
    obtain ⟨o, vs, rfl, hou, hvs⟩ := List.map_eq_cons_iff.mp hc.symm
    obtain ⟨ws, xs, rfl, hws, hxs⟩ := List.map_eq_append_iff.mp hvs
    obtain ⟨c, ys, rfl, hcu, hys⟩ := List.map_eq_cons_iff.mp hxs
    obtain rfl : ys = [] := List.map_eq_nil_iff.mp hys
    obtain ⟨hok, hop⟩ := Prod.mk.inj hou
    obtain ⟨hck, hcp⟩ := Prod.mk.inj hcu
    exact .group ⟨hok.trans ho.1, hop.trans ho.2⟩ (ih hws.symm) ⟨hck.trans hcl.1, hcp.trans hcl.2⟩
  | operand hm _ ih => exact .operand hm (ih hc)
  | chain hm _ hk hs _ ih ih' =>
    rw [List.map_append, List.map_cons] at hc
    obtain ⟨ws, xs, rfl, hws, hxs⟩ := List.map_eq_append_iff.mp hc.symm
    obtain ⟨u, ys, rfl, hu, hys⟩ := List.map_eq_cons_iff.mp hxs
    obtain ⟨hkind, hpayload⟩ := Prod.mk.inj hu
    rw [← hpayload] at hs
    exact .chain hm (ih hws.symm) (hkind.trans hk) hs (ih' hys.symm)

theorem Absorbs.of_content {t u : Token} (h : Absorbs l t) (hc : t.content = u.content) :
    Absorbs l u := by
  obtain ⟨hk, hp⟩ := Prod.mk.inj hc
  exact ⟨hk ▸ h.1, hp ▸ h.2⟩

theorem Phrase.of_content {i j : Nat} (h : Phrase ts l i e j)
    (hc : ts.map content = us.map content) : Phrase us l i e j := by
  have hlen : ts.length = us.length := by simpa using congrArg List.length hc
  refine ⟨h.start_le, hlen ▸ h.le_length, h.derives.of_content ?_, ?_⟩
  · rw [List.map_drop, List.map_take, hc, List.map_drop, List.map_take]
  · intro u hu ha
    have hmap : (ts.map content)[j]? = some u.content := by rw [hc, List.getElem?_map, hu]; rfl
    rw [List.getElem?_map] at hmap
    obtain ⟨t, ht, htu⟩ := Option.map_eq_some_iff.mp hmap
    exact h.stops t ht (ha.of_content htu.symm)

end Grammar

namespace Automaton
open Token

/-- The verdict on moved tokens. -/
def Verdict.moved (f : Int → Int) : Verdict → Verdict
  | accepted => accepted
  | rejected kind position => rejected kind (position.map f)

theorem step_moved (f : Int → Int) (s : State) (t : Token) :
    step s (t.moved f) = (step s t).mapError (Verdict.moved f) := by
  unfold step
  rw [kind_moved, payload_moved]
  split_ifs <;> rfl

theorem finish_moved (f : Int → Int) (last : Option Token) (s : State) :
    finish (last.map (Token.moved f)) s = (finish last s).moved f := by
  unfold finish
  split_ifs
  · rfl
  · rfl
  · cases last <;> rfl

theorem run_moved (f : Int → Int) (last : Option Token) (s : State) (n : Nat) (ts : List Token) :
    run (last.map (Token.moved f)) s n (ts.map (Token.moved f)) =
      Prod.map (Verdict.moved f) id (run last s n ts) := by
  induction ts generalizing s n with
  | nil => rw [List.map_nil, run, finish_moved, run, Prod.map_apply, id]
  | cons t ts ih =>
    have hstep := step_moved f s t
    rw [List.map_cons]
    cases hs : step s t with
    | ok s' =>
      rw [hs] at hstep
      rw [run_of_ok hstep, run_of_ok hs, ih]
    | error v =>
      rw [hs] at hstep
      rw [run_of_error hstep, run_of_error hs]
      rfl

theorem judge_moved (f : Int → Int) (ts : List Token) :
    judge (ts.map (Token.moved f)) = Prod.map (Verdict.moved f) id (judge ts) := by
  unfold judge
  rw [List.getLast?_map]
  exact run_moved f _ _ _ _

end Automaton

namespace Session
open Grammar Automaton Token

variable {source source' : String}

theorem exists_phrase_of_parse {e : Expr} (h : Expr.parse source = .ok e) :
    ∃ j, Phrase (scan source) .additive 0 e j := by
  obtain ⟨s, hs⟩ := read_of_parse h
  have hstart : start (scan source) = on (scan source) 0 := rfl
  rw [hstart, read_on_eq_ok_iff] at hs
  obtain ⟨j, -, hp⟩ := hs
  exact ⟨j, hp⟩

theorem parse_of_phrase {e : Expr} {j : Nat} (h : Phrase (scan source) .additive 0 e j) :
    Expr.parse source = .ok e :=
  parse_of_read (read_on_eq_ok_iff.mpr ⟨j, rfl, h⟩)

theorem parse_of_content (h : (scan source).map content = (scan source').map content) {e : Expr}
    (hp : Expr.parse source = .ok e) : Expr.parse source' = .ok e := by
  obtain ⟨j, hj⟩ := exists_phrase_of_parse hp
  exact parse_of_phrase (hj.of_content h)

theorem parse_error_of_moved {f : Int → Int} (h : scan source' = (scan source).map (moved f))
    {error : SyntaxError} (he : Expr.parse source = .error error) :
    ∃ error', Expr.parse source' = .error error' ∧ error'.kind = error.kind ∧
      error'.position = error.position.map f := by
  have hj := ofResult_parse source
  rw [he] at hj
  apply exists_error_of_judge
  rw [h, judge_moved, Prod.map_fst, ← hj]
  rfl

theorem calculate_eq_ok_iff {x : Float} :
    calculate source = .ok x ↔ ∃ e, Expr.parse source = .ok e ∧ e.value = x := by
  unfold calculate Calculation.value Expr.parse
  dsimp only
  cases (Calculation.expression source).result with
  | ok e => simp
  | error e => simp

/-- A character of no token that parts no number is ignored: the tree and the value are the same
without it, and an error is of the same kind and at the same place, which moves along with what
stands behind the character. -/
theorem parse_insert (a b : String) {c : Char} (hc : Ignored c)
    (hb : Boundary a.toList b.toList) :
    (∀ e, Expr.parse (a ++ String.singleton c ++ b) = .ok e ↔ Expr.parse (a ++ b) = .ok e) ∧
      (∀ x, calculate (a ++ String.singleton c ++ b) = .ok x ↔ calculate (a ++ b) = .ok x) ∧
      ∀ error, Expr.parse (a ++ b) = .error error →
        ∃ error', Expr.parse (a ++ String.singleton c ++ b) = .error error' ∧
          error'.kind = error.kind ∧ error'.position = error.position.map (past a.length) := by
  have hscan := scan_insert hc hb
  have hcontent : (scan (a ++ String.singleton c ++ b)).map content =
      (scan (a ++ b)).map content := by
    rw [hscan, map_content_moved]
  have hparse (e : Expr) : Expr.parse (a ++ String.singleton c ++ b) = .ok e ↔
      Expr.parse (a ++ b) = .ok e :=
    ⟨parse_of_content hcontent, parse_of_content hcontent.symm⟩
  refine ⟨hparse, ?_, fun error => parse_error_of_moved hscan⟩
  intro x
  simp only [calculate_eq_ok_iff, hparse]

/-- An operand that is missing is reported one place further on behind such a character. -/
theorem parse_insert_missing_operand : Ignored '°' ∧ Boundary "2*(3-".toList ")".toList ∧
    ∃ error error', Expr.parse ("2*(3-" ++ ")") = .error error ∧ error.position = some 5 ∧
      Expr.parse ("2*(3-" ++ String.singleton '°' ++ ")") = .error error' ∧
      error'.kind = .unexpectedToken ∧ error'.position = some 6 := by
  have hscan : scan ("2*(3-" ++ ")") = [⟨"2", 0, .number⟩, ⟨"*", 1, .operator⟩,
      ⟨"(", 2, .parentheses⟩, ⟨"3", 3, .number⟩, ⟨"-", 4, .operator⟩,
      ⟨")", 5, .parentheses⟩] := by cbv
  have hjudge : (judge (scan ("2*(3-" ++ ")"))).1 = .rejected .unexpectedToken (some 5) := by
    rw [hscan]
    rfl
  obtain ⟨error, he, hk, hp⟩ := exists_error_of_judge hjudge
  have hc : Ignored '°' := ⟨by decide, by decide⟩
  have hb : Boundary "2*(3-".toList ")".toList := boundary_of_head (by decide)
  obtain ⟨error', he', hk', hp'⟩ := (parse_insert "2*(3-" ")" hc hb).2.2 error he
  rw [hp] at hp'
  exact ⟨hc, hb, error, error', he, hp, he', hk'.trans hk, hp'⟩

end Session
end DecimalComma
