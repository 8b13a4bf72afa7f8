import DecimalComma.Text.Unassigned

/-! Characters without a glyph of their own: controls, format characters, separators other than the
space, private use, and code points not assigned. -/
namespace DecimalComma.Text

/-- The ranges of characters that are not printed as they are, by code point. -/
def hiddenRanges : List (Nat × Nat) :=
  [(0x00, 0x1F), (0x7F, 0xA0), (0xAD, 0xAD), (0x0600, 0x0605), (0x061C, 0x061C), (0x06DD, 0x06DD),
    (0x070F, 0x070F), (0x0890, 0x0891), (0x08E2, 0x08E2), (0x1680, 0x1680), (0x180E, 0x180E),
    (0x2000, 0x200F), (0x2028, 0x202F), (0x205F, 0x206F), (0x3000, 0x3000), (0xE000, 0xF8FF),
    (0xFEFF, 0xFEFF), (0xFFF9, 0xFFFB), (0x110BD, 0x110BD), (0x110CD, 0x110CD), (0x13430, 0x1343F),
    (0x1BCA0, 0x1BCA3), (0x1D173, 0x1D17A), (0xE0001, 0xE0001), (0xE0020, 0xE007F),
    (0xF0000, 0xFFFFD), (0x100000, 0x10FFFD)]

def isPrintable (c : Char) : Bool :=
  !(hiddenRanges ++ unassignedRanges).any fun (first, last) => first ≤ c.toNat && c.toNat ≤ last

end DecimalComma.Text
