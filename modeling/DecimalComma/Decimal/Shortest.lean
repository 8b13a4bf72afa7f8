import DecimalComma.Decimal.Basic

/-! The shortest decimal that reads back as a given magnitude, and of those the nearest. -/
namespace DecimalComma.Decimal

/-- The exact value of a finite magnitude. -/
def ofOrdinal (n : Nat) : Decimal :=
  let m := Double.significand n
  let e := Double.binade n
  if 1074 ≤ e then ⟨m <<< (e - 1074), 0⟩ else ⟨m * Nat.pow 5 (1074 - e), e - 1074⟩

/-- The decimal without its last digits, rounded down. -/
def below (d : Decimal) (places : Nat) : Decimal :=
  ⟨d.coefficient / Nat.pow 10 places, d.exponent + places⟩

/-- The next decimal with as many digits. -/
def next (d : Decimal) : Decimal := ⟨d.coefficient + 1, d.exponent⟩

/-- Of a decimal's two neighbours with so many digits fewer, the one that reads back as the
magnitude `n`; if both do the nearer one, and at the midpoint the even one. -/
def shorten? (n : Nat) (d : Decimal) (places : Nat) : Option Decimal :=
  let low := d.below places
  let high := low.next
  if low.ordinal = n then
    if high.ordinal = n then
      match compare (2 * (d.coefficient % Nat.pow 10 places)) (Nat.pow 10 places) with
      | .lt => some low
      | .eq => some (if low.coefficient % 2 = 0 then low else high)
      | .gt => some high
    else some low
  else if high.ordinal = n then some high
  else none

/-- The decimal of fewest digits that reads back as a finite magnitude. Seventeen digits always do;
the exact value stands behind them, so that reading back rests on no bound. -/
def shortest (n : Nat) : Decimal :=
  let exact := ofOrdinal n
  let size := exact.digits.length
  let found := (List.range 17).findSome? fun k => shorten? n exact (size - (k + 1))
  (found.getD exact).trim

end DecimalComma.Decimal
