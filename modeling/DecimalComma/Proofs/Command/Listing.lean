import DecimalComma.Proofs.Command.Modes
import DecimalComma.Proofs.Text.Quoted

/-! The listing of tokens. The text of a token tells the token: its kind ends with the first blank,
its payload with a quote, and the position stands behind. No line ends inside the text, so the
listing has one line for each token and tells them all. -/
namespace DecimalComma

section Position
open Numeral (Sign signOf)

variable {p p' : Int}

theorem toList_toString_int (p : Int) :
    (toString p).toList = (signOf (p < 0)).spell ++ Nat.toDigits 10 p.natAbs := by
  cases p with
  | ofNat n => exact Nat.toList_repr
  | negSucc n =>
    show ("-" ++ (n + 1).repr).toList = _
    rw [String.toList_append, Nat.toList_repr, decide_eq_true (Int.negSucc_lt_zero n)]
    rfl

theorem toString_int_injective (h : toString p = toString p') : p = p' := by
  have htake (p : Int) : Numeral.takeSign (toString p).toList =
      (signOf (p < 0), Nat.toDigits 10 p.natAbs) := by
    have hsign :=
      Numeral.takeSign_spell_digits (signOf (p < 0)) (Decimal.isDigits_toDigits p.natAbs) []
    rwa [List.append_nil, ← toList_toString_int] at hsign
  have heq := htake p
  rw [h, htake p', Prod.mk.injEq] at heq
  obtain ⟨hsign, hdigits⟩ := heq
  have habs := congrArg (Nat.ofDigitChars 10 · 0) hdigits
  simp only [Nat.ofDigitChars_ten_toDigits] at habs
  have hneg := Layout.signOf_injective hsign
  simp only [decide_eq_decide] at hneg
  omega

theorem isPrintable_of_mem_toString {c : Char} (h : c ∈ (toString p).toList) :
    Text.isPrintable c := by
  apply Text.isPrintable_of_ascii
  rw [toList_toString_int, List.mem_append] at h
  rcases h with h | h
  · rcases Layout.mem_spell h with rfl | rfl <;> decide
  · have hc := Token.toNat_of_isDigit ((Decimal.isDigits_toDigits _).isDigit c h)
    omega

end Position

namespace Token

variable {t u : Token} {k l : TokenKind} {r s : List Char} {c : Char}

theorem toList_text (t : Token) : t.text.toList = t.kind.name.toList ++
    ' ' :: ((Text.quoted t.payload).toList ++
      (" at position ".toList ++ (toString t.position).toList)) := by
  have hblank : " ".toList = [' '] := rfl
  have htext : t.text = t.kind.name ++ " " ++ Text.quoted t.payload ++ " at position " ++
    toString t.position := rfl
  rw [htext]
  simp only [String.toList_append, List.append_assoc, hblank, List.cons_append, List.nil_append]

/-- The name of a kind ends with the first blank. -/
theorem name_append_inj (h : k.name.toList ++ ' ' :: r = l.name.toList ++ ' ' :: s) :
    k = l ∧ r = s := by
  have hname (k : TokenKind) (r : List Char) :
      (k.name.toList ++ ' ' :: r).takeWhile (· ≠ ' ') = k.name.toList := by
    apply takeWhile_append_of_head
    · exact List.all_eq_true.mp (by cases k <;> decide)
    · simp
  have hkind : k.name.toList = l.name.toList := by rw [← hname k r, h, hname]
  obtain rfl : k = l := by
    revert hkind
    cases k <;> cases l <;> decide
  exact ⟨rfl, (List.cons.inj (List.append_cancel_left h)).2⟩

/-- Tokens with the same text are the same. -/
theorem text_injective : Function.Injective text := by
  intro t u h
  have htext := congrArg String.toList h
  rw [toList_text, toList_text] at htext
  obtain ⟨hkind, hrest⟩ := name_append_inj htext
  obtain ⟨hpayload, hposition⟩ := Text.quoted_append_inj hrest
  have hp := toString_int_injective (String.toList_inj.mp (List.append_cancel_left hposition))
  cases t
  cases u
  simp_all

/-- Nothing hidden is in the text of a token. -/
theorem isPrintable_of_mem_text (h : c ∈ t.text.toList) : Text.isPrintable c := by
  have hword (w : String) (hw : (w.toList.all fun c => 0x20 ≤ c.toNat && c.toNat ≤ 0x7E) = true)
      (hc : c ∈ w.toList) : Text.isPrintable c := by
    apply Text.isPrintable_of_ascii
    simpa using List.all_eq_true.mp hw c hc
  rw [toList_text, List.mem_append, List.mem_cons, List.mem_append, List.mem_append] at h
  rcases h with h | rfl | h | h | h
  · exact hword t.kind.name (by cases t.kind <;> decide) h
  · exact hword " " (by decide) (by decide)
  · exact Text.isPrintable_of_mem_quoted h
  · exact hword " at position " (by decide) h
  · exact isPrintable_of_mem_toString h

theorem notMem_lineBreaks_of_mem_text (h : c ∈ t.text.toList) : c ∉ Text.lineBreaks :=
  Text.notMem_lineBreaks (isPrintable_of_mem_text h)

end Token

namespace Command

/-- The texts of tokens, each on a line. -/
def listing (ts : List Token) : String := Outcome.joinLines (ts.map Token.text)

theorem toList_joinLines (lines : List String) : (Outcome.joinLines lines).toList =
    ['\n'].intercalate (lines.map String.toList ++ [[]]) := by
  induction lines with
  | nil => rfl
  | cons line lines ih =>
    have hcons : Outcome.joinLines (line :: lines) = line ++ "\n" ++ Outcome.joinLines lines := by
      simp [Outcome.joinLines]
    rw [hcons, List.map_cons, List.cons_append, List.intercalate_cons_of_ne_nil (by simp), ← ih,
      String.toList_append, String.toList_append]
    rfl

/-- A line break ends each line, and nothing follows the last one. -/
theorem splitOn_joinLines {lines : List String} (h : ∀ line ∈ lines, '\n' ∉ line.toList) :
    (Outcome.joinLines lines).toList.splitOn '\n' = lines.map String.toList ++ [[]] := by
  rw [toList_joinLines]
  apply List.splitOn_intercalate
  · intro s hs
    rcases List.mem_append.mp hs with hs | hs
    · obtain ⟨line, hline, rfl⟩ := List.mem_map.mp hs
      exact h line hline
    · simp [List.mem_singleton.mp hs]
  · simp

theorem splitOn_listing (ts : List Token) :
    (listing ts).toList.splitOn '\n' = ts.map (·.text.toList) ++ [[]] := by
  have hlines : ∀ line ∈ ts.map Token.text, '\n' ∉ line.toList := by
    intro line hline hc
    obtain ⟨t, -, rfl⟩ := List.mem_map.mp hline
    exact Token.notMem_lineBreaks_of_mem_text hc (by decide)
  rw [listing, splitOn_joinLines hlines, List.map_map]
  rfl

theorem listing_injective : Function.Injective listing := by
  intro ts us h
  have hsplit := splitOn_listing ts
  rw [h, splitOn_listing, List.append_cancel_right_eq] at hsplit
  have hinj : Function.Injective fun t : Token => t.text.toList :=
    fun t u htu => Token.text_injective (String.toList_inj.mp htu)
  exact (hinj.list_map hsplit).symm

/-- The text of a token tells the token, and no line ends inside it. So the listing of tokens, which
a run prints for a source if they are asked for and nothing else, has a line for each token, namely
its text, and tells all the tokens. -/
theorem listing_lines_and_tokens :
    (∀ t u : Token, t.text = u.text ↔ t = u) ∧
      (∀ t : Token, ∀ c ∈ t.text.toList, c ∉ Text.lineBreaks) ∧
      (∀ ts, (listing ts).toList.splitOn '\n' = ts.map (·.text.toList) ++ [[]]) ∧
      (∀ ts us, listing ts = listing us ↔ ts = us) ∧
      ∀ (version : String) (host : Host) (env : Environment) (flags args : List String)
        (source : String), (Settings.load env).isOk → (∀ f ∈ flags, Arguments.IsSetting f) →
          source ≠ "" → Asks flags ⟨true, false⟩ source args →
            (run version host env args).stdout = listing (Token.scan source) := by
  refine ⟨fun t u => Token.text_injective.eq_iff, fun t c => Token.notMem_lineBreaks_of_mem_text,
    splitOn_listing, fun ts us => listing_injective.eq_iff, ?_⟩
  intro version host env flags args source he hf hs ha
  obtain ⟨s, hload⟩ : ∃ s, Settings.load env = .ok s := by
    cases hload : Settings.load env with
    | error e => simp [hload, Except.isOk, Except.toBool] at he
    | ok s => exact ⟨s, rfl⟩
  rw [run_of_asks version host ha hf hs hload]
  rfl

end Command
end DecimalComma
