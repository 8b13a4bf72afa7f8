import DecimalComma.Decimal.Layout
import DecimalComma.Proofs.Decimal.Shortest
import DecimalComma.Proofs.Token.Lexeme

/-! The texts of layouts, taken apart into runs of digits. Positional digits denote the number that
they were written for; in scientific form the digits before the `e` and those behind it do so only
together. -/
namespace DecimalComma.Decimal
open Token (IsDigits)

theorem isDigits_digits (d : Decimal) : IsDigits d.digits :=
  ⟨Nat.toDigits_ne_nil, fun _ h => Nat.isDigit_of_mem_toDigits (by norm_num) (by norm_num) h⟩

theorem isDigits_toDigits (n : Nat) : IsDigits (Nat.toDigits 10 n) := isDigits_digits ⟨n, 0⟩

theorem ofDigitChars_digits (d : Decimal) : Nat.ofDigitChars 10 d.digits 0 = d.coefficient :=
  Nat.ofDigitChars_ten_toDigits

theorem ofDigitChars_zeros_append (k : Nat) (ds : List Char) :
    Nat.ofDigitChars 10 (List.replicate k '0' ++ ds) 0 = Nat.ofDigitChars 10 ds 0 := by
  rw [Nat.ofDigitChars_append, Nat.ofDigitChars_replicate_zero, Nat.mul_zero]

theorem ofDigitChars_append_zeros (ds : List Char) (k : Nat) :
    Nat.ofDigitChars 10 (ds ++ List.replicate k '0') 0 = 10 ^ k * Nat.ofDigitChars 10 ds 0 := by
  rw [Nat.ofDigitChars_append, Nat.ofDigitChars_replicate_zero]

theorem toNat_bounds_of_isDigit {c : Char} (h : c.isDigit) :
    '0'.toNat ≤ c.toNat ∧ c.toNat - '0'.toNat < 10 := by
  have hc := Token.toNat_of_isDigit h
  have hzero : '0'.toNat = 0x30 := rfl
  omega

theorem toDigits_of_isDigit {c : Char} (h : c.isDigit) :
    Nat.toDigits 10 (c.toNat - '0'.toNat) = [c] := by
  obtain ⟨hle, hlt⟩ := toNat_bounds_of_isDigit h
  rw [Nat.toDigits_of_lt_base hlt, List.cons.injEq]
  refine ⟨Char.toNat_inj.mp ?_, rfl⟩
  rw [Nat.toNat_digitChar_of_lt_ten hlt]
  exact Nat.add_sub_cancel' hle

/-- Digits behind those of a number other than zero go on with them. -/
theorem toDigits_append_digits {n : Nat} {ds : List Char} (hn : 0 < n) (hd : ∀ c ∈ ds, c.isDigit) :
    Nat.toDigits 10 n ++ ds = Nat.toDigits 10 (Nat.ofDigitChars 10 ds n) := by
  induction ds generalizing n with
  | nil => rw [List.append_nil, Nat.ofDigitChars_nil]
  | cons c ds ih =>
    have hc := hd c List.mem_cons_self
    have hnext := Nat.toDigits_append_toDigits (b := 10) (by norm_num) hn
      (toNat_bounds_of_isDigit hc).2
    rw [toDigits_of_isDigit hc] at hnext
    rw [Nat.ofDigitChars_cons, ← ih (by omega) fun a ha => hd a (List.mem_cons_of_mem c ha),
      ← hnext, List.append_assoc, List.singleton_append]

/-- The number that digits, a point, more digits and a power of ten write. -/
theorem toRat_ofParts (ds fs : List Char) (e : Int) : (ofParts ds fs e).toRat =
    (Nat.ofDigitChars 10 ds 0 + Nat.ofDigitChars 10 fs 0 / 10 ^ fs.length) * 10 ^ e := by
  unfold ofParts toRat
  rw [Nat.ofDigitChars_append, Nat.ofDigitChars_eq_ofDigitChars_zero, zpow_sub₀ (by norm_num),
    zpow_natCast]
  push_cast
  field_simp

/-- Numbers other than zero are written without a zero before their digits. -/
theorem head?_toDigits_ne_zero {n : Nat} (h : n ≠ 0) : (Nat.toDigits 10 n).head? ≠ some '0' := by
  induction n using Nat.strong_induction_on with
  | _ n ih =>
    by_cases hn : n < 10
    · have hdigit : ∀ d < 10, d ≠ 0 → Nat.digitChar d ≠ '0' := by decide
      rw [Nat.toDigits_of_lt_base hn, List.head?_cons, ne_eq, Option.some.injEq]
      exact hdigit n hn h
    · have hhead := ih (n / 10) (by omega) (by omega)
      rw [Nat.toDigits_of_base_le (by norm_num) (by omega)]
      rwa [List.head?_append_of_ne_nil _ Nat.toDigits_ne_nil]

theorem isDigit_zeros (k : Nat) : ∀ c ∈ List.replicate k '0', c.isDigit := by
  intro c hc
  rw [List.eq_of_mem_replicate hc]
  decide

theorem isDigits_zeros_append (k : Nat) {ds : List Char} (h : IsDigits ds) :
    IsDigits (List.replicate k '0' ++ ds) :=
  Token.isDigits_append (by simp [h.ne_nil]) (isDigit_zeros k) h.isDigit

theorem isDigits_append_zeros {ds : List Char} (h : IsDigits ds) (k : Nat) :
    IsDigits (ds ++ List.replicate k '0') :=
  Token.isDigits_append (by simp [h.ne_nil]) h.isDigit (isDigit_zeros k)

end DecimalComma.Decimal

namespace DecimalComma.Layout
open Token (IsDigits)

/-- Positional text in its parts: digits before the mark and, if there is one, digits behind it. -/
structure PositionalParts (l : Layout) (d : Decimal) (w : List Char) (f : Option (List Char)) :
    Prop where
  whole : IsDigits w
  fraction : ∀ ds ∈ f, IsDigits ds
  text : l.writePositional d = w ++ f.elim [] (l.mark :: ·)
  toRat : (Decimal.ofParts w (f.getD []) 0).toRat = d.toRat
  length_le : w.length ≤ max 1 d.point.toNat
  /-- The digits before the mark begin as those of the number do, or there is only a zero. -/
  first : w = ['0'] ∨ w.head? = d.digits.head?
  /-- The digits behind it end as those of the number do, or there is only a zero that is kept. -/
  last : ∀ ds ∈ f, l.keepsFraction = true ∨ ds.getLast? = d.digits.getLast?
  kept : l.keepsFraction = true → f.isSome = true

theorem toRat_ofParts_zeros (d : Decimal) {k : Nat} (hk : d.exponent = k) (z : Nat) :
    (Decimal.ofParts (d.digits ++ List.replicate k '0') (List.replicate z '0') 0).toRat =
      d.toRat := by
  have hz : d.digits ++ List.replicate k '0' ++ List.replicate z '0' =
      d.digits ++ List.replicate (k + z) '0' := by
    rw [List.append_assoc, List.replicate_append_replicate]
  unfold Decimal.ofParts Decimal.toRat
  rw [hz, Decimal.ofDigitChars_append_zeros, Decimal.ofDigitChars_digits, hk, zpow_natCast,
    List.length_replicate, zero_sub, zpow_neg, zpow_natCast, pow_add]
  push_cast
  field_simp

/-- The digits begin behind the mark. -/
theorem positionalParts_behind (l : Layout) {d : Decimal} (h : d.point ≤ 0) :
    PositionalParts l d ['0'] (some (List.replicate (-d.point).toNat '0' ++ d.digits)) := by
  have hd := d.isDigits_digits
  have hp : d.point = d.digits.length + d.exponent := rfl
  have hz : ['0'] ++ (List.replicate (-d.point).toNat '0' ++ d.digits) =
      List.replicate ((-d.point).toNat + 1) '0' ++ d.digits := rfl
  have he : (0 : ℤ) - (List.replicate (-d.point).toNat '0' ++ d.digits).length = d.exponent := by
    rw [List.length_append, List.length_replicate]
    omega
  constructor
  case whole => exact Token.isDigits_singleton (by decide)
  case fraction =>
    rintro _ ⟨⟩
    exact Decimal.isDigits_zeros_append _ hd
  case text => exact if_pos h
  case toRat =>
    unfold Decimal.ofParts
    rw [Option.getD_some, hz, he, Decimal.ofDigitChars_zeros_append, Decimal.ofDigitChars_digits]
  case length_le => exact Nat.le_max_left _ _
  case first => exact .inl rfl
  case last =>
    rintro _ ⟨⟩
    exact .inr (List.getLast?_append_of_ne_nil _ hd.ne_nil)
  case kept => exact fun _ => rfl

/-- The mark stands among the digits. -/
theorem positionalParts_among (l : Layout) {d : Decimal} (h : 0 < d.point)
    (h' : d.point < d.digits.length) :
    PositionalParts l d (d.digits.take d.point.toNat) (some (d.digits.drop d.point.toNat)) := by
  have hd := d.isDigits_digits
  have hp : d.point = d.digits.length + d.exponent := rfl
  have he : (0 : ℤ) - (d.digits.drop d.point.toNat).length = d.exponent := by
    rw [List.length_drop]
    omega
  constructor
  case whole =>
    exact ⟨List.ne_nil_of_length_pos (by rw [List.length_take]; omega),
      fun c hc => hd.isDigit c (List.mem_of_mem_take hc)⟩
  case fraction =>
    rintro _ ⟨⟩
    exact ⟨List.ne_nil_of_length_pos (by rw [List.length_drop]; omega),
      fun c hc => hd.isDigit c (List.mem_of_mem_drop hc)⟩
  case text => exact (if_neg (by omega)).trans (if_pos h')
  case toRat =>
    unfold Decimal.ofParts
    rw [Option.getD_some, he, List.take_append_drop, Decimal.ofDigitChars_digits]
  case length_le =>
    rw [List.length_take]
    omega
  case first =>
    right
    rw [List.head?_take, if_neg (by omega)]
  case last =>
    rintro _ ⟨⟩
    right
    rw [List.getLast?_drop, if_neg (by omega)]
  case kept => exact fun _ => rfl

/-- The digits end before the mark, which is written if a fraction is kept. -/
theorem positionalParts_before (l : Layout) {d : Decimal} (h : 0 < d.point)
    (h' : d.digits.length ≤ d.point) :
    PositionalParts l d (d.digits ++ List.replicate (d.point.toNat - d.digits.length) '0')
      (if l.keepsFraction then some ['0'] else none) := by
  have hd := d.isDigits_digits
  have hp : d.point = d.digits.length + d.exponent := rfl
  have he : d.exponent = (d.point.toNat - d.digits.length : Nat) := by omega
  have hwrite := (if_neg (by omega : ¬ d.point ≤ 0)).trans
    (if_neg (by omega : ¬ d.point < d.digits.length)) (a := l.writePositional d)
  constructor
  case whole => exact Decimal.isDigits_append_zeros hd _
  case fraction =>
    split_ifs
    · rintro _ ⟨⟩
      exact Token.isDigits_singleton (by decide)
    · simp
  case text =>
    rw [hwrite]
    split_ifs <;> rfl
  case toRat =>
    split_ifs
    · exact toRat_ofParts_zeros d he 1
    · exact toRat_ofParts_zeros d he 0
  case length_le =>
    rw [List.length_append, List.length_replicate]
    omega
  case first =>
    right
    rw [List.head?_append_of_ne_nil _ hd.ne_nil]
  case last =>
    split_ifs with hkeep
    · exact fun _ _ => .inl hkeep
    · simp
  case kept =>
    intro hkeep
    rw [if_pos hkeep]
    rfl

theorem exists_positionalParts (l : Layout) (d : Decimal) :
    ∃ whole fraction, PositionalParts l d whole fraction := by
  by_cases hlow : d.point ≤ 0
  · exact ⟨_, _, l.positionalParts_behind hlow⟩
  · by_cases hin : d.point < d.digits.length
    · exact ⟨_, _, l.positionalParts_among (by omega) hin⟩
    · exact ⟨_, _, l.positionalParts_before (by omega) (by omega)⟩

/-- Positional text is made of digits on both sides of the mark, which denote the number. Those
before it begin as the digits of the number do, or there is one of them. -/
theorem exists_writePositional (l : Layout) (h : l.keepsFraction = true) (d : Decimal) :
    ∃ whole fraction, IsDigits whole ∧ IsDigits fraction ∧
      l.writePositional d = whole ++ l.mark :: fraction ∧
        (Decimal.ofParts whole fraction 0).toRat = d.toRat ∧
        whole.length ≤ max 1 d.point.toNat ∧
        (whole.length = 1 ∨ whole.head? = d.digits.head?) := by
  obtain ⟨whole, fraction, hparts⟩ := l.exists_positionalParts d
  obtain ⟨ds, rfl⟩ := Option.isSome_iff_exists.mp (hparts.kept h)
  refine ⟨whole, ds, hparts.whole, hparts.fraction ds rfl, hparts.text, hparts.toRat,
    hparts.length_le, ?_⟩
  rcases hparts.first with hzero | hhead
  · exact .inl (by rw [hzero, List.length_singleton])
  · exact .inr hhead

theorem exists_writeExponent (l : Layout) (e : ℤ) :
    ∃ ds, IsDigits ds ∧ l.writeExponent e = 'e' :: (if e < 0 then '-' else '+') :: ds ∧
      Nat.ofDigitChars 10 ds 0 = e.natAbs := by
  refine ⟨_, Decimal.isDigits_zeros_append _ (Decimal.isDigits_toDigits e.natAbs), rfl, ?_⟩
  rw [Decimal.ofDigitChars_zeros_append, Nat.ofDigitChars_ten_toDigits]

/-- Scientific text is made of one digit, a mark with the others behind it if there are any, and the
power of ten. -/
theorem exists_writeScientific (l : Layout) (d : Decimal) :
    ∃ c cs, c.isDigit ∧ (cs ≠ [] → IsDigits cs) ∧
      l.writeScientific d =
        [c] ++ (if cs = [] then [] else l.mark :: cs) ++ l.writeExponent (d.point - 1) ∧
      ∀ e, Decimal.ofParts [c] cs e = ⟨d.coefficient, e + 1 - d.digits.length⟩ := by
  have hd := d.isDigits_digits
  have hc := d.ofDigitChars_digits
  unfold writeScientific
  generalize d.digits = ds at *
  cases ds with
  | nil => exact absurd rfl hd.ne_nil
  | cons c cs =>
    refine ⟨c, cs, hd.isDigit c (by simp), ?_, ?_, ?_⟩
    · intro hne
      exact ⟨hne, fun a ha => hd.isDigit a (by simp [ha])⟩
    · cases cs <;> rfl
    · intro e
      unfold Decimal.ofParts
      rw [List.singleton_append, hc, List.length_cons]
      congr 1
      push_cast
      ring

/-- The layout with another mark. -/
def marked (l : Layout) (f : Char → Char) : Layout := { l with mark := f l.mark }

section Mark
variable {f : Char → Char} (hf : ∀ c, c.isDigit ∨ c ∈ ['e', '+', '-'] → f c = c)
include hf

theorem map_eq_of_isDigits {ds : List Char} (h : IsDigits ds) : ds.map f = ds :=
  (List.map_congr_left fun c hc => hf c (.inl (h.isDigit c hc))).trans (List.map_id ds)

theorem map_writePositional (l : Layout) (d : Decimal) :
    (l.writePositional d).map f = (l.marked f).writePositional d := by
  have hd := map_eq_of_isDigits hf d.isDigits_digits
  have hz : f '0' = '0' := hf '0' (.inl rfl)
  have hkept : (l.marked f).keepsFraction = l.keepsFraction := rfl
  unfold writePositional
  dsimp only
  rw [hkept]
  split_ifs <;> simp [marked, List.map_take, List.map_drop, hd, hz]

theorem map_writeExponent (l : Layout) (e : ℤ) :
    (l.writeExponent e).map f = (l.marked f).writeExponent e := by
  obtain ⟨ds, hd, ht, -⟩ := l.exists_writeExponent e
  have hsign : f (if e < 0 then '-' else '+') = if e < 0 then '-' else '+' := by
    split_ifs
    · exact hf '-' (.inr (by simp))
    · exact hf '+' (.inr (by simp))
  have he : f 'e' = 'e' := hf 'e' (.inr (by simp))
  show _ = l.writeExponent e
  rw [ht, List.map_cons, List.map_cons, he, hsign, map_eq_of_isDigits hf hd]

theorem map_writeScientific (l : Layout) (d : Decimal) :
    (l.writeScientific d).map f = (l.marked f).writeScientific d := by
  have hd := map_eq_of_isDigits hf d.isDigits_digits
  have he := map_writeExponent hf l (d.point - 1)
  unfold writeScientific
  generalize d.digits = ds at hd
  cases ds with
  | nil => rfl
  | cons c cs =>
    rw [List.map_cons, List.cons.injEq] at hd
    dsimp only
    rw [List.map_append, List.map_cons, hd.1, he]
    cases cs with
    | nil => rfl
    | cons c' cs => rw [if_neg (by simp), if_neg (by simp), List.map_cons, hd.2, marked]

/-- A text with its mark replaced is the text in the layout with the other mark. -/
theorem map_write (l : Layout) (d : Decimal) : (l.write d).map f = (l.marked f).write d := by
  unfold write
  rw [apply_ite (List.map f), map_writePositional hf, map_writeScientific hf]
  rfl

end Mark

end DecimalComma.Layout
