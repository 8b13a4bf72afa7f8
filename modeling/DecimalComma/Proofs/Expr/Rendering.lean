import DecimalComma.Expr.Text
import DecimalComma.Proofs.Expr.Rereading

/-! The text of a tree is parsed again. It is an expression iff every number in it is finite, and it
has the value of the tree if every number is an integer or not too small. -/
namespace DecimalComma.Expr
open Grammar Layout Automaton

theorem reads_parenthesized {cs : List Char} {ss : List Symbol} (h : Reads cs ss) :
    Reads ('(' :: (cs ++ [')'])) (.opening :: (ss ++ [.closing])) := by
  have hc := h.append reads_closing (Token.boundary_of_head (by decide))
  exact reads_opening.append hc (Token.boundary_of_last (u := []) (by decide))

theorem reads_operation_between {cs ds : List Char} {as bs : List Symbol} (op : Operation)
    (ha : Reads cs as) (hb : Reads ds bs) :
    Reads (cs ++ ' ' :: (op.symbol.toList ++ ' ' :: ds)) (as ++ .operation op :: bs) := by
  have hblank : Reads [' '] [] := reads_blank (by decide)
  have hds := hblank.append hb (Token.boundary_of_last (u := []) (by decide))
  have hop := (reads_operation op).append hds (Token.boundary_of_head (by decide))
  have hall := hblank.append hop (Token.boundary_of_last (u := []) (by decide))
  exact ha.append hall (Token.boundary_of_head (by decide))

theorem toList_text_group (e : Expr) :
    (group e).text.toList = '(' :: (e.text.toList ++ [')']) := by
  simp [text]

theorem toList_text_binary (op : Operation) (a b : Expr) : (binary op a b).text.toList =
    '(' :: (a.text.toList ++ ' ' :: (op.symbol.toList ++ ' ' :: b.text.toList) ++ [')']) := by
  simp [text]

/-- The text of a tree is read as the symbols that it is written in. -/
theorem reads_text {e : Expr} (h : e.Leaves IsLiteral) : Reads e.text.toList e.written := by
  induction e with
  | number x =>
    unfold text written
    split_ifs with ht hf
    · exact reads_of_isTypeable h ht
    · exact reads_of_not_isTypeable h hf (by simpa using ht)
    · exact reads_of_not_isFinite h (by simpa using hf)
  | group e ih =>
    rw [toList_text_group]
    exact reads_parenthesized (ih h)
  | binary op a b iha ihb =>
    rw [toList_text_binary]
    exact reads_parenthesized (reads_operation_between op (iha h.1) (ihb h.2))

/-- No operand begins with these tokens. -/
def NoOperand (rest : List Token) : Prop :=
  ∀ t us, rest = t :: us → t.kind ≠ .number ∧ ¬ (t.kind = .parentheses ∧ t.payload = "(")

theorem noOperand_operator {t : Token} {us : List Token} (h : t.kind = .operator) :
    NoOperand (t :: us) := by
  intro u vs hu
  obtain ⟨rfl, -⟩ := List.cons.inj hu
  rw [h]
  exact ⟨by simp, by simp⟩

theorem noOperand_closing {t : Token} {us : List Token}
    (h : t.kind = .parentheses ∧ t.payload = ")") : NoOperand (t :: us) := by
  intro u vs hu
  obtain ⟨rfl, -⟩ := List.cons.inj hu
  rw [h.1, h.2]
  exact ⟨by simp, by simp⟩

/-- Where an operand is expected but none begins, nothing is accepted. -/
theorem run_of_noOperand (last : Option Token) (d n : Nat) {rest : List Token}
    (h : NoOperand rest) : (run last ⟨true, d⟩ n rest).1 ≠ .accepted := by
  cases rest with
  | nil => simp [run, finish]
  | cons t us =>
    obtain ⟨hn, ho⟩ := h t us rfl
    rw [run_of_error (step_unexpected hn ho)]
    simp

/-- An infinite number leaves a place without an operand in the text. -/
theorem run_of_written (last : Option Token) {e : Expr}
    (h : ¬ e.Leaves fun x => Double.isFinite x = true) {ts rest : List Token}
    (hts : List.Forall₂ Token.Denotes ts e.written) (hr : NoOperand rest) (d n : Nat) :
    (run last ⟨true, d⟩ n (ts ++ rest)).1 ≠ .accepted := by
  induction e generalizing ts rest d n with
  | number x =>
    have hx : ¬ Double.isFinite x = true := h
    have hw : (number x).written = [] := by
      unfold written
      rw [if_neg (fun ht => hx (isFinite_of_isTypeable ht)), if_neg hx]
    rw [hw] at hts
    cases hts
    exact run_of_noOperand last d n hr
  | group e ih =>
    obtain ⟨o, us, ho, hus, rfl⟩ := List.forall₂_cons_right_iff.mp hts
    obtain ⟨vs, ws, rfl, hvs, hws⟩ := denotes_append hus
    obtain ⟨c, xs, hc, hxs, rfl⟩ := List.forall₂_cons_right_iff.mp hws
    rw [List.cons_append, run_of_ok (step_opening ho), List.append_assoc]
    exact ih h hvs (noOperand_closing hc) _ _
  | binary op a b iha ihb =>
    obtain ⟨o, us, ho, hus, rfl⟩ := List.forall₂_cons_right_iff.mp hts
    obtain ⟨vs, ws, rfl, hvs, hws⟩ := denotes_append hus
    obtain ⟨c, xs, hc, hxs, rfl⟩ := List.forall₂_cons_right_iff.mp hws
    obtain ⟨as, ys, rfl, has, hys⟩ := denotes_append hvs
    obtain ⟨t, bs, ht, hbs, rfl⟩ := List.forall₂_cons_right_iff.mp hys
    rw [List.cons_append, run_of_ok (step_opening ho), List.append_assoc, List.append_assoc]
    by_cases ha : a.Leaves fun x => Double.isFinite x = true
    · have hb : ¬ b.Leaves fun x => Double.isFinite x = true := fun hb => h ⟨ha, hb⟩
      rw [← symbols_reread ha] at has
      rw [run_of_derives last (a.fits_reread.derives has), List.cons_append,
        run_of_ok (step_operator ht.1)]
      exact ihb hb hbs (noOperand_closing hc) _ _
    · exact iha ha has (noOperand_operator ht.1) _ _

theorem leaves_of_derives {l : Level} {ts : List Token} {e : Expr} (h : Derives l ts e) :
    e.Leaves IsLiteral := by
  induction h with
  | number h => exact isLiteral_value _
  | group _ _ _ ih => exact ih
  | operand _ _ ih => exact ih
  | chain _ _ _ _ _ ih ih' => exact ⟨ih, ih'⟩

theorem leaves_of_parse {source : String} {e : Expr} (h : parse source = .ok e) :
    e.Leaves IsLiteral := by
  obtain ⟨ts, hd⟩ := Session.derives_of_parse h
  exact leaves_of_derives hd

theorem read_text {e : Expr} (h : e.Leaves IsLiteral)
    (hf : e.Leaves fun x => Double.isFinite x = true) :
    (Session.start (Token.scan e.text)).read .additive =
      (.ok e.reread, Session.on (Token.scan e.text) (Token.scan e.text).length) := by
  apply Session.read_of_reads _ e.fits_reread
  rw [symbols_reread hf]
  exact reads_text h

theorem parse_text_ne_ok {e e' : Expr} (h : e.Leaves IsLiteral)
    (hf : ¬ e.Leaves fun x => Double.isFinite x = true) : parse e.text ≠ .ok e' := by
  intro hp
  obtain ⟨ts, hts, hd⟩ := reads_text h 0
  have hj := Session.judge_of_parse hp
  rw [Token.scan_eq_iff.mpr hts] at hj
  have hrest : NoOperand [] := by
    intro _ _ h
    cases h
  have hrun := run_of_written ts.getLast? hf hd hrest 0 0
  rw [List.append_nil] at hrun
  exact hrun hj

/-- The text of a parsed tree is an expression again iff no number in it is infinite. If all of them
are integers or not too small, the text is read to its end, as the tree with parentheses around every
operation, and has the same value. -/
theorem parse_text_of_parse {source : String} {e : Expr} (h : parse source = .ok e) :
    ((∃ e', parse e.text = .ok e') ↔ e.Leaves fun x => Double.isFinite x = true) ∧
      ((e.Leaves fun x => isTypeable x = true) →
        (Session.start (Token.scan e.text)).read .additive =
          (.ok e.wrap, Session.on (Token.scan e.text) (Token.scan e.text).length) ∧
        parse e.text = .ok e.wrap ∧ e.wrap.value = e.value) := by
  have hl := leaves_of_parse h
  constructor
  · constructor
    · intro hx
      obtain ⟨e', he'⟩ := hx
      by_contra hf
      exact parse_text_ne_ok hl hf he'
    · intro hf
      have hread := read_text hl hf
      exact ⟨e.reread, Session.parse_of_read hread⟩
  · intro ht
    have hf : e.Leaves fun x => Double.isFinite x = true :=
      ht.mono fun _ => isFinite_of_isTypeable
    have hread := read_text hl hf
    rw [reread_eq_wrap ht] at hread
    exact ⟨hread, Session.parse_of_read hread, e.value_wrap⟩

/-- A sum in parentheses as a factor, whose text has three pairs of them. -/
theorem parse_text_of_parse_grouped_sum :
    let half := Decimal.toDouble false ⟨5, -1⟩
    let two := Decimal.toDouble false ⟨2, 0⟩
    let three := Decimal.toDouble false ⟨3, 0⟩
    let e := binary .mul (group (binary .add (number half) (number two))) (number three)
    parse "(0,5+2)*3" = .ok e ∧ e.text = "(((0,5 + 2)) * 3)" ∧
      parse "(((0,5 + 2)) * 3)" = .ok e.wrap ∧ e.wrap.value = e.value := by
  intro half two three e
  have hhalf : Token.Lexeme .number "0,5".toList :=
    .fraction (Token.isDigits_singleton (c := '0') (by decide))
      (Token.isDigits_singleton (c := '5') (by decide))
  have htwo : Token.Lexeme .number ['2'] := .whole (Token.isDigits_singleton (by decide))
  have hthree : Token.Lexeme .number ['3'] := .whole (Token.isDigits_singleton (by decide))
  have hplus : Reads ['+', '2'] [.operation .add, .number two] :=
    (reads_operation .add).append (reads_number htwo) (Token.boundary_of_last (u := []) (by decide))
  have hsum : Reads "0,5+2".toList [.number half, .operation .add, .number two] :=
    (reads_number hhalf).append hplus (Token.boundary_of_head (by decide))
  have htimes : Reads ['*', '3'] [.operation .mul, .number three] :=
    (reads_operation .mul).append (reads_number hthree)
      (Token.boundary_of_last (u := []) (by decide))
  have hsource : Reads "(0,5+2)*3".toList e.symbols :=
    (reads_parenthesized hsum).append htimes (Token.boundary_of_head (by decide))
  have hfits : e.Fits .additive :=
    fits_binary .mul (.group (fits_binary .add (.number _) (.number _))) (.number _)
  have hparse : parse "(0,5+2)*3" = .ok e := Session.parse_of_reads hsource hfits
  have htext : e.text = "(((0,5 + 2)) * 3)" := by decide +kernel
  have htypeable : isTypeable half = true ∧ isTypeable two = true ∧ isTypeable three = true := by
    decide +kernel
  have ht : e.Leaves fun x => isTypeable x = true :=
    ⟨⟨htypeable.1, htypeable.2.1⟩, htypeable.2.2⟩
  obtain ⟨-, hagain, hvalue⟩ := (parse_text_of_parse hparse).2 ht
  rw [htext] at hagain
  exact ⟨hparse, htext, hagain, hvalue⟩

/-- A number beyond all finite ones is infinite, and its text is no expression. -/
theorem not_parse_text_of_huge :
    parse (String.ofList ('1' :: List.replicate 309 '0')) =
        .ok (number (Double.infinity false)) ∧
      ¬ ∃ e', parse (number (Double.infinity false)).text = .ok e' ∧
        e'.value = (number (Double.infinity false)).value := by
  have hd : Token.IsDigits ('1' :: List.replicate 309 '0') :=
    Decimal.isDigits_append_zeros (Token.isDigits_singleton (c := '1') (by decide)) 309
  have hx : IsLiteral (Double.infinity false) := by
    have hi : Double.infinityOrdinal ≤ Double.infinityOrdinal := le_rfl
    exact ⟨Double.isNegative_ofOrdinal false hi, (Double.ordinal_ofOrdinal false hi).le⟩
  have hord : (Token.decimalOf ('1' :: List.replicate 309 '0')).ordinal =
      Double.ordinal (Double.infinity false) := by
    rw [Token.decimalOf_whole hd]
    decide +kernel
  constructor
  · apply Session.parse_of_reads _ (Fits.number _).additive
    rw [String.toList_ofList]
    exact reads_number_of_ordinal hx (.whole hd) hord
  · intro hx
    obtain ⟨e', hp, -⟩ := hx
    have hleaf : (number (Double.infinity false)).Leaves IsLiteral := hx
    have hf : ¬ Double.isFinite (Double.infinity false) = true := by decide +kernel
    exact parse_text_ne_ok hleaf hf hp

/-- The numbers that are written out in digits: finite ones without a sign that are integers or not
below a ten-thousandth. -/
structure IsPlain (x : Float) : Prop where
  isFinite : Double.isFinite x = true
  isNegative : Double.isNegative x = false
  not_small : Double.isInteger x = true ∨ 1 / 10000 ≤ Double.toRat (Double.ordinal x)

theorem IsPlain.isLiteral {x : Float} (h : IsPlain x) : IsLiteral x := by
  have hf := h.isFinite
  unfold Double.isFinite at hf
  exact ⟨h.isNegative, (of_decide_eq_true hf).le⟩

theorem IsPlain.isTypeable {x : Float} (h : IsPlain x) : isTypeable x = true := by
  unfold Layout.isTypeable
  rw [h.isFinite, Bool.true_and, Bool.or_eq_true, decide_eq_true_eq, Decimal.typedFrom_le_iff]
  exact h.not_small

theorem calculate_of_parse {source : String} {e : Expr} (h : parse source = .ok e) :
    calculate source = .ok e.value := by
  unfold calculate Calculation.value
  unfold parse at h
  dsimp only
  rw [h]

/-- The text of any tree of such numbers is read to its end, as the tree with parentheses around every
operation and with the very same numbers, and has the value of the tree. -/
theorem read_text_of_isPlain {e : Expr} (h : e.Leaves IsPlain) :
    (Session.start (Token.scan e.text)).read .additive =
        (.ok e.wrap, Session.on (Token.scan e.text) (Token.scan e.text).length) ∧
      parse e.text = .ok e.wrap ∧ calculate e.text = .ok e.value := by
  have hl : e.Leaves IsLiteral := h.mono fun _ => IsPlain.isLiteral
  have ht : e.Leaves fun x => isTypeable x = true := h.mono fun _ => IsPlain.isTypeable
  have hread := read_text hl (h.mono fun _ => IsPlain.isFinite)
  rw [reread_eq_wrap ht] at hread
  have hparse := Session.parse_of_read hread
  have hvalue := calculate_of_parse hparse
  rw [value_wrap] at hvalue
  exact ⟨hread, hparse, hvalue⟩

/-- A sum as a factor, which no source is parsed to. -/
def bareFactor : Expr :=
  binary .mul
    (binary .add (number (Decimal.toDouble false ⟨5, -1⟩)) (number (Decimal.toDouble false ⟨3, 0⟩)))
    (number (Decimal.toDouble false ⟨2, 0⟩))

theorem read_text_of_isPlain_bareFactor :
    bareFactor.Leaves IsPlain ∧ bareFactor.text = "((0,5 + 3) * 2)" ∧
      parse "((0,5 + 3) * 2)" = .ok bareFactor.wrap := by
  have half : IsPlain (Decimal.toDouble false ⟨5, -1⟩) :=
    ⟨by decide +kernel, by decide +kernel, .inr (by decide +kernel)⟩
  have three : IsPlain (Decimal.toDouble false ⟨3, 0⟩) :=
    ⟨by decide +kernel, by decide +kernel, .inl (by decide +kernel)⟩
  have two : IsPlain (Decimal.toDouble false ⟨2, 0⟩) :=
    ⟨by decide +kernel, by decide +kernel, .inl (by decide +kernel)⟩
  have hl : bareFactor.Leaves IsPlain := ⟨⟨half, three⟩, two⟩
  have ht : bareFactor.text = "((0,5 + 3) * 2)" := by decide +kernel
  have hp := (read_text_of_isPlain hl).2.1
  rw [ht] at hp
  exact ⟨hl, ht, hp⟩

end DecimalComma.Expr
