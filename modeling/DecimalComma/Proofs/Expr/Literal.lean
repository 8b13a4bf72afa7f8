import DecimalComma.Proofs.Decimal.Typed
import DecimalComma.Proofs.Grammar.Reading

/-! What the texts of numbers are read as. A number that is an integer or not too small is read as
itself; a smaller one is written with an exponent, which is read as a difference; and infinity is
written as a word, of which nothing is read. -/
namespace DecimalComma.Layout
open Double Token

/-- The values that the texts of numbers can have: neither negative nor a NaN. -/
structure IsLiteral (x : Float) : Prop where
  isNegative : isNegative x = false
  le_infinityOrdinal : ordinal x ≤ infinityOrdinal

/-- The numbers whose text is that of a number. -/
def isTypeable (x : Float) : Bool := isFinite x && (isInteger x || Decimal.typedFrom ≤ ordinal x)

/-- What the digits before the exponent of a small number are read as. -/
def leading (x : Float) : Float :=
  let d := Decimal.shortest (ordinal x)
  Decimal.toDouble false ⟨d.coefficient, 1 - d.digits.length⟩

/-- What the digits of the exponent are read as. -/
def places (x : Float) : Float :=
  Decimal.toDouble false ⟨(1 - (Decimal.shortest (ordinal x)).point).toNat, 0⟩

variable {x : Float}

theorem isFinite_of_isTypeable (h : isTypeable x = true) : isFinite x = true := by
  unfold isTypeable at h
  exact (Bool.and_eq_true_iff.mp h).1

theorem isLiteral_value (t : Token) : IsLiteral t.value := by
  have h := t.decimal.ordinal_le_infinityOrdinal
  constructor
  · exact isNegative_ofOrdinal false h
  · rw [Token.value, Decimal.toDouble, ordinal_ofOrdinal false h]
    exact h

theorem IsLiteral.isNaN (h : IsLiteral x) : isNaN x = false := by
  have := h.le_infinityOrdinal
  unfold Double.isNaN
  simpa using this

theorem ordinal_ne_zero (h : isInteger x = false) : ordinal x ≠ 0 := by
  intro hz
  rw [isInteger_of_isZero (isZero_iff.mpr hz)] at h
  cases h

theorem IsLiteral.toDouble_eq (h : IsLiteral x) {d : Decimal} (hd : d.ordinal = ordinal x) :
    d.toDouble false = x := by
  unfold Decimal.toDouble
  rw [hd, ← h.isNegative, ofOrdinal_ordinal]

theorem renderLiteral_of_isInteger (h : IsLiteral x) (hf : isFinite x = true)
    (hi : isInteger x = true) : (renderLiteral x).toList = Nat.toDigits 10 (integerPart x) := by
  rw [toList_renderLiteral_of_isInteger hf hi, isNegative_unsignZero, h.isNegative]
  rfl

theorem renderLiteral_of_not_isInteger (h : IsLiteral x) (hf : isFinite x = true)
    (hi : isInteger x = false) :
    (renderLiteral x).toList = typed.write (Decimal.shortest (ordinal x)) := by
  rw [renderLiteral_of_not (by simp [hi]), toList_render hf, h.isNegative]
  rfl

theorem renderLiteral_of_not_isFinite (h : IsLiteral x) (hf : isFinite x = false) :
    (renderLiteral x).toList = ['i', 'n', 'f'] := by
  rw [renderLiteral_of_not (by simp [hf]), toList_render_of_not_isFinite (by simp [hf]),
    h.isNegative, if_neg (by simp [h.isNaN])]
  rfl

theorem reads_number_of_ordinal {w : List Char} (hx : IsLiteral x) (hw : Lexeme .number w)
    (h : (decimalOf w).ordinal = ordinal x) : Reads w [.number x] := by
  have hr := reads_number hw
  rwa [hx.toDouble_eq h] at hr

theorem reads_integer (hx : IsLiteral x) (hf : isFinite x = true) (hi : isInteger x = true) :
    Reads (renderLiteral x).toList [.number x] := by
  have hd := Decimal.isDigits_toDigits (integerPart x)
  rw [renderLiteral_of_isInteger hx hf hi]
  apply reads_number_of_ordinal hx (.whole hd)
  rw [decimalOf_whole hd, ordinal_toDigits hf hi]

theorem reads_positional (hx : IsLiteral x) (hf : isFinite x = true) (hi : isInteger x = false)
    (ht : Decimal.typedFrom ≤ ordinal x) : Reads (renderLiteral x).toList [.number x] := by
  have hle := hx.le_infinityOrdinal
  have hne : units (ordinal x) % unitsOfOne ≠ 0 := by simpa [isInteger] using hi
  have hlow := (Decimal.lt_point_shortest_iff hle (ordinal_ne_zero hi)).mpr ht
  have hhigh := Decimal.point_shortest_le hle hne
  obtain ⟨whole, fraction, hw, hfr, htext, hval, -⟩ :=
    typed.exists_writePositional rfl (Decimal.shortest (ordinal x))
  rw [renderLiteral_of_not_isInteger hx hf hi, write, if_pos ⟨hlow, hhigh⟩, htext]
  apply reads_number_of_ordinal hx (.fraction hw hfr)
  rw [decimalOf_fraction hw, Decimal.ordinal_congr hval, Decimal.ordinal_shortest hle]

/-- A typeable number is read as itself. -/
theorem reads_of_isTypeable (hx : IsLiteral x) (ht : isTypeable x = true) :
    Reads (renderLiteral x).toList [.number x] := by
  simp only [isTypeable, Bool.and_eq_true, Bool.or_eq_true, decide_eq_true_eq] at ht
  cases hi : isInteger x with
  | true => exact reads_integer hx ht.1 hi
  | false => exact reads_positional hx ht.1 hi (ht.2.resolve_left (by simp [hi]))

theorem lexeme_scientific {whole fraction : List Char} (hw : IsDigits whole)
    (hf : fraction ≠ [] → IsDigits fraction) :
    Lexeme .number (whole ++ if fraction = [] then [] else typed.mark :: fraction) ∧
      decimalOf (whole ++ if fraction = [] then [] else typed.mark :: fraction) =
        .ofParts whole fraction 0 := by
  by_cases h : fraction = []
  · rw [if_pos h, List.append_nil, h]
    exact ⟨.whole hw, decimalOf_whole hw⟩
  · rw [if_neg h]
    exact ⟨.fraction hw (hf h), decimalOf_fraction hw fraction⟩

theorem reads_exponent {ds : List Char} (hd : IsDigits ds) :
    Reads ('e' :: '-' :: ds)
      [.operation .sub, .number ((decimalOf ds).toDouble false)] := by
  have he : Reads ['e'] [] := reads_blank (by decide)
  have hm : Reads ['-'] [.operation .sub] := reads_operation .sub
  have hn := hm.append (reads_number (.whole hd)) (boundary_of_last (u := []) (by decide))
  exact he.append hn (boundary_of_head (by decide))

/-- Any other finite number is read as a difference. -/
theorem reads_of_not_isTypeable (hx : IsLiteral x) (hf : isFinite x = true)
    (ht : isTypeable x = false) : Reads (renderLiteral x).toList
      [.number (leading x), .operation .sub, .number (places x)] := by
  have hle := hx.le_infinityOrdinal
  simp only [isTypeable, hf, Bool.true_and, Bool.or_eq_false_iff, decide_eq_false_iff_not] at ht
  obtain ⟨hi, hsmall⟩ := ht
  have hp : ¬ -4 < (Decimal.shortest (ordinal x)).point := by
    rwa [Decimal.lt_point_shortest_iff hle (ordinal_ne_zero hi)]
  obtain ⟨c, cs, hc, hcs, htext, hval⟩ := typed.exists_writeScientific (Decimal.shortest (ordinal x))
  obtain ⟨ds, hds, hexp, hplaces⟩ :=
    typed.exists_writeExponent ((Decimal.shortest (ordinal x)).point - 1)
  have hminus : (Decimal.shortest (ordinal x)).point - 1 < 0 := by omega
  have hnat : ((Decimal.shortest (ordinal x)).point - 1).natAbs =
      (1 - (Decimal.shortest (ordinal x)).point).toNat := by omega
  obtain ⟨hlex, hdec⟩ := lexeme_scientific (isDigits_singleton hc) hcs
  have hnum := reads_number hlex
  rw [hdec, hval, zero_add] at hnum
  have hdiff := reads_exponent hds
  rw [decimalOf_whole hds, Decimal.ofParts, List.append_nil, hplaces, hnat] at hdiff
  rw [renderLiteral_of_not_isInteger hx hf hi, write, if_neg (fun h => hp h.1), htext, hexp,
    if_pos hminus]
  exact hnum.append hdiff (boundary_of_head (by decide))

/-- Infinity is written as a word of which nothing is read. -/
theorem reads_of_not_isFinite (hx : IsLiteral x) (hf : isFinite x = false) :
    Reads (renderLiteral x).toList [] := by
  rw [renderLiteral_of_not_isFinite hx hf]
  have hi : Reads ['i'] [] := reads_blank (by decide)
  have hn : Reads ['n'] [] := reads_blank (by decide)
  have hr : Reads ['f'] [] := reads_blank (by decide)
  have hnf := hn.append hr (boundary_of_head (by decide))
  exact hi.append hnf (boundary_of_head (by decide))

end DecimalComma.Layout
