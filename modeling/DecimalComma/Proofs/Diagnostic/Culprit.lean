import DecimalComma.Proofs.Cursor
import DecimalComma.Proofs.Diagnostic.Mention
import DecimalComma.Proofs.Grammar.Reading

/-! Errors point at their culprit: the token under the cursor or, where the tokens are used up, the
last one. The message mentions where that token begins, and the caret stands below it. -/
namespace DecimalComma.SyntaxError
open Token

theorem mentionedPosition?_unclosed {p : Int} {n : Nat} (h : p = n) :
    mentionedPosition? (unclosed p).message.toList = some n := by
  have hm : (unclosed p).message =
      "Imbalanced brackets at " ++ "position " ++ toString p ++ " detected!" := rfl
  exact mentionedPosition?_of_eq h hm (by decide +kernel) (by decide +kernel)

theorem mentionedPosition?_operandExpected_none :
    mentionedPosition? (operandExpected none).message.toList = none := by
  decide +kernel

/-- What a message says of an unexpected token before the position. -/
def mention (k : TokenKind) (payload : String) : String :=
  "Expected <number> found <" ++ k.name ++ " " ++ Text.quoted payload ++ " at "

/-- The label does not begin in what is said of an operator or a parenthesis. -/
theorem unlabeled_mention {k : TokenKind} {w : String} (hl : Lexeme k w.toList)
    (hk : k ≠ .number) : Unlabeled (mention k w).toList := by
  obtain ⟨c, r, hw, hc | ⟨hc, rfl, rfl⟩ | ⟨hc, rfl, rfl⟩⟩ := hl.exists_cons
  · exact absurd hc.2 hk
  all_goals
    obtain rfl : w = String.ofList [c] := by rw [← hw, String.ofList_toList]
    fin_cases hc <;> decide +kernel

theorem message_operandExpected (t : Token) : (operandExpected (some t)).message =
    mention t.kind t.payload ++ "position " ++ toString t.position ++ ">." := by
  have hassoc (a k b q c l p d : String) : a ++ (k ++ b ++ q ++ (c ++ l) ++ p) ++ d =
      a ++ k ++ b ++ q ++ c ++ l ++ p ++ d := by
    simp only [String.append_assoc]
  exact hassoc "Expected <number> found <" t.kind.name " " (Text.quoted t.payload) " at " "position "
    (toString t.position) ">."

theorem mentionedPosition?_operandExpected {t : Token} {n : Nat} (hp : t.position = n)
    (hl : Lexeme t.kind t.payload.toList) (hk : t.kind ≠ .number) :
    mentionedPosition? (operandExpected (some t)).message.toList = some n :=
  mentionedPosition?_of_eq hp (message_operandExpected t) (unlabeled_mention hl hk)
    (by decide +kernel)

end DecimalComma.SyntaxError

namespace DecimalComma.Grammar

/-- Where an operand is missing stands no number. -/
theorem kind_ne_number_of_parse {l : Level} {ts us : List Token} {t : Token} {f : Failure}
    (h : parse l ts = .error f) (hm : f.missing = .operand) (hr : f.rest = t :: us) :
    t.kind ≠ .number := by
  fun_induction parse l ts with
  | case1 =>
    cases h
    cases hr
  | case2 => cases h
  | case3 _ _ _ _ _ hp ih =>
    cases h
    exact ih hp
  | case4 _ _ _ _ _ _ _ hc =>
    cases h
    rw [eq_of_takeClosing_error hc] at hm
    cases hm
  | case5 => cases h
  | case6 _ _ hn _ =>
    cases h
    cases hr
    exact hn
  | case7 _ _ _ _ hp ih =>
    cases h
    exact ih hp
  | case8 => cases h
  | case9 _ _ _ _ _ _ _ _ _ hq _ ih =>
    cases h
    exact ih hq
  | case10 => cases h

end DecimalComma.Grammar

namespace DecimalComma.Session
open Grammar

theorem current_on {ts us rest : List Token} (h : ts = us ++ rest) :
    (on ts us.length).current = rest.head? := by
  rw [Cursor.current_eq_head?, rest_on, h, List.drop_left]

/-- Parsing fails as the grammar does, with the cursor on the first token that was not read. -/
theorem exists_failure_of_parse {source : String} {error : SyntaxError}
    (h : Expr.parse source = .error error) : ∃ us f, Token.scan source = us ++ f.rest ∧
      parse .additive (Token.scan source) = .error f ∧
      error = .ofFailure (Token.scan source).getLast? f ∧
      (start (Token.scan source)).read .additive =
        (.error error, on (Token.scan source) us.length) := by
  have hread := read_start_eq source
  have hverdict := ofResult_parse source
  rw [h] at hread hverdict
  cases hp : parse .additive (Token.scan source) with
  | ok p =>
    obtain ⟨us, -, hj⟩ := Automaton.judge_of_parse_ok (known_scan source) hp
    rw [hj] at hverdict
    cases hverdict
  | error f =>
    obtain ⟨us, hts, hj⟩ := Automaton.judge_of_parse_error (known_scan source) hp
    rw [hj] at hread
    have hrest : (start (Token.scan source)).rest = Token.scan source := rest_on _ 0
    have hlast : (start (Token.scan source)).last = (Token.scan source).getLast? := last_on _ 0
    have hp' : parse .additive (start (Token.scan source)).rest = .error f := by
      rw [hrest]
      exact hp
    have hf := hread.symm.trans (read_of_parse_error hp')
    rw [hlast] at hf
    exact ⟨us, f, hts, rfl, Except.error.inj (Prod.mk.inj hf).1, hread⟩

/-- What an error says, by the tokens `rest` that were not read: none is left for an operand, one
that begins no operand follows, or a token is the culprit for an open group. -/
inductive Blames (last : Option Token) (rest : List Token) : SyntaxError → Prop where
  | exhausted (h : rest = []) : Blames last rest (.operandExpected none)
  | unexpected {t : Token} (h : rest.head? = some t) (hk : t.kind ≠ .number) :
      Blames last rest (.operandExpected (some t))
  | unclosed {t : Token} (h : rest.head?.or last = some t) : Blames last rest (.unclosed t.position)

theorem exists_blames_of_parse {source : String} {error : SyntaxError}
    (h : Expr.parse source = .error error) : ∃ us rest, Token.scan source = us ++ rest ∧
      (start (Token.scan source)).read .additive =
        (.error error, on (Token.scan source) us.length) ∧
      Blames (Token.scan source).getLast? rest error := by
  obtain ⟨us, f, hts, hp, rfl, hread⟩ := exists_failure_of_parse h
  refine ⟨us, f.rest, hts, hread, ?_⟩
  unfold SyntaxError.ofFailure
  cases hm : f.missing with
  | operand =>
    cases hr : f.rest with
    | nil => exact .exhausted rfl
    | cons t r => exact .unexpected rfl (kind_ne_number_of_parse hp hm hr)
  | closing =>
    obtain ⟨t, ht⟩ := exists_culprit hp hm
    dsimp only
    rw [ht]
    exact .unclosed ht

end DecimalComma.Session

namespace DecimalComma
open Session

theorem Snippet.text_of_column {s : Snippet} {p : Int} (h : s.column = some p) :
    s.text = s.source ++ "\n" ++ String.ofList (List.replicate p.toNat ' ' ++ ['^']) := by
  unfold text marker
  rw [h]
  rfl

namespace Session

theorem mem_of_culprit {ts us rest : List Token} {t : Token} (hts : ts = us ++ rest)
    (h : rest.head?.or ts.getLast? = some t) : t ∈ ts := by
  rcases Option.or_eq_some_iff.mp h with h | ⟨-, h⟩
  · rw [hts]
    exact List.mem_append_right us (List.mem_of_head? h)
  · exact List.mem_of_getLast? h

variable {source : String} {us rest : List Token} {error : SyntaxError}

/-- The position of an error is that of its culprit, a token of the source. -/
theorem Blames.exists_culprit {p : Int} (hts : Token.scan source = us ++ rest)
    (h : Blames (Token.scan source).getLast? rest error) (hp : error.position = some p) :
    ∃ t ∈ Token.scan source, rest.head?.or (Token.scan source).getLast? = some t ∧
      t.position = p := by
  cases h with
  | exhausted => cases hp
  | @unexpected t ht _ =>
    have hor : rest.head?.or (Token.scan source).getLast? = some t := by rw [ht, Option.some_or]
    exact ⟨_, mem_of_culprit hts hor, hor, Option.some.inj hp⟩
  | unclosed hor => exact ⟨_, mem_of_culprit hts hor, hor, Option.some.inj hp⟩

/-- The message of an error mentions its position, if it has one, and no other. -/
theorem Blames.mentionedPosition? (hts : Token.scan source = us ++ rest)
    (h : Blames (Token.scan source).getLast? rest error) :
    (DecimalComma.mentionedPosition? error.message.toList).map Int.ofNat = error.position := by
  have hreads := (Token.tokenization_scan source).reads
  cases h with
  | exhausted =>
    rw [SyntaxError.mentionedPosition?_operandExpected_none]
    rfl
  | @unexpected t ht hk =>
    have hmem : t ∈ Token.scan source := hts ▸ List.mem_append_right us (List.mem_of_head? ht)
    obtain ⟨n, hn⟩ := Int.eq_ofNat_of_zero_le (hreads t hmem).nonneg
    rw [SyntaxError.mentionedPosition?_operandExpected hn (hreads t hmem).lexeme hk]
    exact congrArg some hn.symm
  | @unclosed t hor =>
    obtain ⟨n, hn⟩ := Int.eq_ofNat_of_zero_le (hreads t (mem_of_culprit hts hor)).nonneg
    rw [SyntaxError.mentionedPosition?_unclosed hn]
    exact congrArg some hn.symm

/-- Only an operand missing at the end has no position. -/
theorem Blames.position_eq_none_iff (h : Blames (Token.scan source).getLast? rest error) :
    error.position = none ↔ error.kind = .unexpectedToken ∧ rest.head? = none := by
  cases h with
  | exhausted h =>
    rw [h]
    exact ⟨fun _ => ⟨rfl, rfl⟩, fun _ => rfl⟩
  | unexpected h _ =>
    rw [h]
    constructor
    · intro hp
      cases hp
    · intro hx
      cases hx.2
  | unclosed _ =>
    constructor
    · intro hp
      cases hp
    · intro hx
      cases hx.1

/-- An error of parsing points at its culprit. The position that its message mentions is the one it
carries, and there is none iff an operand is missing behind the last token. Otherwise a token begins
there, the one under the cursor or the last one behind the end, and the caret stands below it. -/
theorem mentionedPosition?_of_parse (h : Expr.parse source = .error error) :
    ∃ s, (start (Token.scan source)).read .additive = (.error error, s) ∧
      (DecimalComma.mentionedPosition? error.message.toList).map Int.ofNat = error.position ∧
      (error.position = none ↔ error.kind = .unexpectedToken ∧ s.current = none) ∧
      ∀ p, error.position = some p → 0 ≤ p ∧ p < source.length ∧
        (∃ t ∈ Token.scan source, t.position = p ∧ s.current.or s.last = some t ∧
          ∃ c r, t.payload.toList = c :: r ∧ source.toList[p.toNat]? = some c) ∧
        (Snippet.ofMessage source error.message).text =
          source ++ "\n" ++ String.ofList (List.replicate p.toNat ' ' ++ ['^']) := by
  obtain ⟨us, rest, hts, hread, hb⟩ := exists_blames_of_parse h
  have hmention := hb.mentionedPosition? hts
  refine ⟨_, hread, hmention, ?_, ?_⟩
  · rw [current_on hts]
    exact hb.position_eq_none_iff
  · intro p hp
    obtain ⟨t, ht, hor, rfl⟩ := hb.exists_culprit hts hp
    have hreads := (Token.tokenization_scan source).reads t ht
    obtain ⟨c, r, hw, hc⟩ := hreads.exists_first
    have hlt := (List.getElem?_eq_some_iff.mp hc).1
    rw [String.length_toList] at hlt
    have hnonneg := hreads.nonneg
    refine ⟨hnonneg, by omega, ⟨t, ht, rfl, ?_, c, r, hw, hc⟩, ?_⟩
    · rw [current_on hts, last_on]
      exact hor
    · exact Snippet.text_of_column (hmention.trans hp)

/-- In a group that is never closed the last token is to blame. -/
theorem mentionedPosition?_of_parse_open_group : ∃ error, Expr.parse "1+(2,5" = .error error ∧
    (DecimalComma.mentionedPosition? error.message.toList).map Int.ofNat = some 3 ∧
    (Snippet.ofMessage "1+(2,5" error.message).text = "1+(2,5\n   ^" := by
  have hscan : Token.scan "1+(2,5" = [⟨"1", 0, .number⟩, ⟨"+", 1, .operator⟩,
      ⟨"(", 2, .parentheses⟩, ⟨"2,5", 3, .number⟩] := by cbv
  have hjudge : (Automaton.judge (Token.scan "1+(2,5")).1 = .rejected .imbalanced (some 3) := by
    rw [hscan]
    rfl
  obtain ⟨error, he, -, hp⟩ := exists_error_of_judge hjudge
  obtain ⟨s, -, hmention, -, hculprit⟩ := mentionedPosition?_of_parse he
  exact ⟨error, he, hmention.trans hp, (hculprit 3 hp).2.2.2⟩

end Session
end DecimalComma
