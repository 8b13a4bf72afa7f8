/-! Case mappings into ASCII: the full mappings of Unicode on the characters whose image is written
in ASCII, and the identity elsewhere. A comparison with an ASCII word needs no more. -/
namespace DecimalComma.Text

/-- The letters outside ASCII whose capitals lie inside it. -/
def asciiCapitals : List (Char × String) :=
  [('ß', "SS"), ('ı', "I"), ('ſ', "S"), ('ﬀ', "FF"), ('ﬁ', "FI"), ('ﬂ', "FL"), ('ﬃ', "FFI"),
    ('ﬄ', "FFL"), ('ﬅ', "ST"), ('ﬆ', "ST")]

/-- The letters outside ASCII whose small letters begin inside it: the dotted capital I and the sign
of the kelvin. -/
def asciiSmalls : List (Char × String) := [('\u0130', "i\u0307"), ('\u212A', "k")]

def upper (s : List Char) : List Char :=
  s.flatMap fun c => ((asciiCapitals.lookup c).map String.toList).getD [c.toUpper]

def lower (s : List Char) : List Char :=
  s.flatMap fun c => ((asciiSmalls.lookup c).map String.toList).getD [c.toLower]

end DecimalComma.Text
