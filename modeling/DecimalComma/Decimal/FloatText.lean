import DecimalComma.Decimal.Numeral
import DecimalComma.Text.Blank

/-! Texts that hold a binary64 value and nothing else: a numeral, or a word for an infinity or a NaN,
between white space; or one of these with its characters set apart by single underscores. -/
namespace DecimalComma.FloatText

/-- The words for magnitudes that are not finite, in small letters. -/
def words : List (List Char × Nat) :=
  [("inf".toList, Double.infinityOrdinal), ("infinity".toList, Double.infinityOrdinal),
    ("nan".toList, Double.ordinal Double.nan)]

/-- The value of a word, with a sign or without one and in any case. -/
def ofWord? (s : List Char) : Option Float :=
  let (sign, s) := Numeral.takeSign s
  (words.lookup (s.map Char.toLower)).map (Double.ofOrdinal (sign = .minus))

/-- The value of a numeral, which needs a digit. -/
def ofNumeral? (s : List Char) : Option Float :=
  let (n, rest) := Numeral.take s
  if rest = [] ∧ n.hasDigits then some n.toDouble else none

def ofPlain? (s : List Char) : Option Float := (ofNumeral? s).or (ofWord? s)

/-- The text without its underscores, if each of them stands alone and between other characters: if no
two meet once the text is put between underscores. -/
def ungroup? (s : List Char) : Option (List Char) :=
  let t := '_' :: s ++ ['_']
  if ('_', '_') ∈ t.zip t.tail then none else some (s.filter (· ≠ '_'))

/-- The value of a text. White space and underscores do not go together. -/
def read? (s : List Char) : Option Float :=
  (ofPlain? (Text.strip Text.isSpace s)).or ((ungroup? s).bind ofPlain?)

end DecimalComma.FloatText
