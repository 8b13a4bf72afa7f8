import DecimalComma.Proofs.Grammar.Automaton
import DecimalComma.Proofs.Token.Boundary

/-! Texts by the symbols that their tokens denote. Symbols are put together with the texts, and a text
with the symbols of a tree that the grammar can derive is parsed to that tree. -/
namespace DecimalComma
open Grammar

/-- The tokens of a text denote these symbols, wherever the text stands. -/
def Reads (cs : List Char) (ss : List Symbol) : Prop :=
  ∀ n, ∃ ts, Token.Scan n cs ts ∧ List.Forall₂ Token.Denotes ts ss

theorem Reads.append {s t : List Char} {as bs : List Symbol} (hs : Reads s as) (ht : Reads t bs)
    (hb : Token.Boundary s t) : Reads (s ++ t) (as ++ bs) := by
  intro n
  obtain ⟨ts, hts, has⟩ := hs n
  obtain ⟨us, hus, hbs⟩ := ht (n + s.length)
  exact ⟨ts ++ us, hts.append hus hb, List.rel_append has hbs⟩

theorem reads_blank {c : Char} (h : ¬ Token.Marks c) : Reads [c] [] :=
  fun n => ⟨[], Token.scan_blank h n, .nil⟩

theorem reads_lexeme {k : TokenKind} {w : List Char} {s : Symbol} (hw : Token.Lexeme k w)
    (hs : ∀ n, Token.Denotes ⟨String.ofList w, n, k⟩ s) : Reads w [s] :=
  fun n => ⟨_, Token.scan_lexeme hw n, .cons (hs n) .nil⟩

theorem reads_opening : Reads ['('] [.opening] :=
  reads_lexeme (.parenthesis (by simp)) fun _ => ⟨rfl, rfl⟩

theorem reads_closing : Reads [')'] [.closing] :=
  reads_lexeme (.parenthesis (by simp)) fun _ => ⟨rfl, rfl⟩

theorem exists_symbol (op : Operation) :
    ∃ c ∈ ['+', '-', '*', '/', '^'], op.symbol.toList = [c] := by
  cases op with
  | add => exact ⟨'+', by simp, rfl⟩
  | sub => exact ⟨'-', by simp, rfl⟩
  | mul => exact ⟨'*', by simp, rfl⟩
  | div => exact ⟨'/', by simp, rfl⟩
  | pow => exact ⟨'^', by simp, rfl⟩

theorem reads_operation (op : Operation) : Reads op.symbol.toList [.operation op] := by
  obtain ⟨c, hc, hs⟩ := exists_symbol op
  have hw : Token.Lexeme .operator [c] := .operator hc
  rw [hs]
  apply reads_lexeme hw
  intro n
  refine ⟨rfl, ?_⟩
  rw [← hs, String.ofList_toList]

theorem reads_number {w : List Char} (hw : Token.Lexeme .number w) :
    Reads w [.number ((Token.decimalOf w).toDouble false)] :=
  reads_lexeme hw fun _ => ⟨rfl, rfl⟩

/-- The trees of the derivations from a level. -/
inductive Expr.Fits : Level → Expr → Prop where
  | number (x : Float) : Fits .atomic (.number x)
  | group {e : Expr} (content : Fits .additive e) : Fits .atomic (.group e)
  | operand {l m : Level} {e : Expr} (hm : Operand l m) (h : Fits m e) : Fits l e
  | chain {l m : Level} {op : Operation} {a b : Expr} (hm : Operand l m) (left : Fits m a)
      (hs : Spells l op.symbol op) (right : Fits l b) : Fits l (.binary op a b)

theorem denotes_append {ts : List Token} {as bs : List Symbol}
    (h : List.Forall₂ Token.Denotes ts (as ++ bs)) : ∃ us vs, ts = us ++ vs ∧
      List.Forall₂ Token.Denotes us as ∧ List.Forall₂ Token.Denotes vs bs :=
  ⟨_, _, (List.take_append_drop as.length ts).symm, List.forall₂_take_append ts as bs h,
    List.forall₂_drop_append ts as bs h⟩

/-- Tokens that denote the symbols of such a tree are derived from the level, with that tree. -/
theorem Expr.Fits.derives {l : Level} {e : Expr} (h : e.Fits l) {ts : List Token}
    (hd : List.Forall₂ Token.Denotes ts e.symbols) : Derives l ts e := by
  induction h generalizing ts with
  | number x =>
    obtain ⟨t, us, ⟨hk, hv⟩, hus, rfl⟩ := List.forall₂_cons_right_iff.mp hd
    cases hus
    rw [← hv]
    exact .number hk
  | group _ ih =>
    obtain ⟨o, us, ho, hus, rfl⟩ := List.forall₂_cons_right_iff.mp hd
    obtain ⟨vs, ws, rfl, hvs, hws⟩ := denotes_append hus
    obtain ⟨c, xs, hc, hxs, rfl⟩ := List.forall₂_cons_right_iff.mp hws
    cases hxs
    exact .group ho (ih hvs) hc
  | operand hm _ ih => exact .operand hm (ih hd)
  | chain hm _ hs _ ih ih' =>
    obtain ⟨us, vs, rfl, hus, hvs⟩ := denotes_append hd
    obtain ⟨t, ws, ⟨hk, ht⟩, hws, rfl⟩ := List.forall₂_cons_right_iff.mp hvs
    rw [← ht] at hs
    exact .chain hm (ih hus) hk hs (ih' hws)

theorem Expr.Fits.additive {l : Level} {e : Expr} (h : e.Fits l) : e.Fits .additive := by
  cases l with
  | atomic => exact .operand .additive (.operand .multiplicative (.operand .power h))
  | power => exact .operand .additive (.operand .multiplicative h)
  | multiplicative => exact .operand .additive h
  | additive => exact h

end DecimalComma

namespace DecimalComma.Session
open Grammar

/-- A source with the symbols of a tree is read to its end, as that tree. -/
theorem read_of_reads {source : String} {e : Expr} (h : Reads source.toList e.symbols)
    (hf : e.Fits .additive) : (start (Token.scan source)).read .additive =
      (.ok e, on (Token.scan source) (Token.scan source).length) := by
  obtain ⟨ts, hts, hd⟩ := h 0
  rw [Token.scan_eq_iff.mpr hts]
  have hstart : start ts = on ts 0 := rfl
  rw [hstart, read_on_eq_ok_iff]
  refine ⟨ts.length, rfl, phrase_iff.mpr ⟨ts, [], ?_, ?_, hf.derives hd, stops_nil _⟩⟩
  · simp
  · simp

/-- Parsing a source is reading an expression at its first token. -/
theorem parse_eq_read (source : String) :
    Expr.parse source = ((start (Token.scan source)).read .additive).1 := by
  unfold Expr.parse
  rcases hr : (start (Token.scan source)).read .additive with ⟨e | e, s⟩
  · rw [expression_of_read_error hr]
  · rw [expression_of_read_ok hr]

theorem parse_of_read {source : String} {e : Expr} {s : Session}
    (h : (start (Token.scan source)).read .additive = (.ok e, s)) : Expr.parse source = .ok e := by
  rw [parse_eq_read, h]

theorem parse_of_reads {source : String} {e : Expr} (h : Reads source.toList e.symbols)
    (hf : e.Fits .additive) : Expr.parse source = .ok e :=
  parse_of_read (read_of_reads h hf)

theorem read_of_parse {source : String} {r : Except SyntaxError Expr}
    (h : Expr.parse source = r) : ∃ s, (start (Token.scan source)).read .additive = (r, s) := by
  rw [parse_eq_read] at h
  exact ⟨_, Prod.ext h rfl⟩

theorem derives_of_parse {source : String} {e : Expr} (h : Expr.parse source = .ok e) :
    ∃ ts, Derives .additive ts e := by
  obtain ⟨s, hs⟩ := read_of_parse h
  have hstart : start (Token.scan source) = on (Token.scan source) 0 := rfl
  rw [hstart, read_on_eq_ok_iff] at hs
  obtain ⟨j, -, hp⟩ := hs
  exact ⟨_, hp.derives⟩

/-- The verdict on a source is that of the automaton on its tokens. -/
theorem ofResult_parse (source : String) : Automaton.Verdict.ofResult (Expr.parse source) =
    (Automaton.judge (Token.scan source)).1 := by
  rw [parse_eq_read]
  exact (read_start (known_scan source)).1

theorem judge_of_parse {source : String} {e : Expr} (h : Expr.parse source = .ok e) :
    (Automaton.judge (Token.scan source)).1 = .accepted := by
  rw [← ofResult_parse, h]
  rfl

theorem exists_parse_of_judge {source : String}
    (h : (Automaton.judge (Token.scan source)).1 = .accepted) :
    ∃ e, Expr.parse source = .ok e := by
  rw [← ofResult_parse] at h
  cases hp : Expr.parse source with
  | ok e => exact ⟨e, rfl⟩
  | error e =>
    rw [hp] at h
    cases h

theorem exists_error_of_judge {source : String} {k : ErrorKind} {p : Option Int}
    (h : (Automaton.judge (Token.scan source)).1 = .rejected k p) :
    ∃ error, Expr.parse source = .error error ∧ error.kind = k ∧ error.position = p := by
  rw [← ofResult_parse] at h
  cases hp : Expr.parse source with
  | ok e =>
    rw [hp] at h
    cases h
  | error error =>
    rw [hp] at h
    exact ⟨error, rfl, Automaton.Verdict.rejected.inj h⟩

/-- The cursor stops where the automaton does. -/
theorem read_start_eq (source : String) : (start (Token.scan source)).read .additive =
    (Expr.parse source, on (Token.scan source) (Automaton.judge (Token.scan source)).2) :=
  Prod.ext (parse_eq_read source).symm (read_start (known_scan source)).2

end DecimalComma.Session
