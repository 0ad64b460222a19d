import QuadAsm.Text.EastAsianWide
import QuadAsm.Text.GraphemeExtend

/-! How wide a character is on a terminal whose text stands in a grid of cells.

Most characters take one cell. Those that join the character before or behind them, and
those that are not drawn at all, take none; those of East_Asian_Width wide or fullwidth
take two. Whatever is only wide among wide neighbours counts as narrow. The properties
are those of Unicode 15.1; a character it does not know yet takes one cell, unless it
stands among the ideographs or where ignorable characters are to come. -/
namespace QuadAsm.Text

/-- The characters of the property Default_Ignorable_Code_Point, which a terminal that
does not know them leaves undrawn. -/
def ignorable : CodePoints :=
  [(0xAD, 0xAD), (0x34F, 0x34F), (0x61C, 0x61C), (0x115F, 0x1160), (0x17B4, 0x17B5),
    (0x180B, 0x180F), (0x200B, 0x200F), (0x202A, 0x202E), (0x2060, 0x206F), (0x3164, 0x3164),
    (0xFE00, 0xFE0F), (0xFEFF, 0xFEFF), (0xFFA0, 0xFFA0), (0xFFF0, 0xFFF8), (0x1BCA0, 0x1BCA3),
    (0x1D173, 0x1D17A), (0xE0000, 0xE0FFF)]

/-- Vowels and final consonants of the Hangul alphabet, drawn into the cell of the
consonant before them. -/
def hangulPart : CodePoints := [(0x1160, 0x11FF), (0xD7B0, 0xD7C6), (0xD7CB, 0xD7FB)]

/-- Vowel signs of Kannada and Balinese that are made of two characters of the property
Grapheme_Extend, though they do not have it themselves. -/
def composedMark : CodePoints :=
  [(0xCC0, 0xCC0), (0xCC7, 0xCC8), (0xCCA, 0xCCB), (0x1B3B, 0x1B3B), (0x1B3D, 0x1B3D),
    (0x1B43, 0x1B43)]

/-- Marks that are drawn over or under the characters behind them, and one caret that
stands between two. -/
def leadingMark : CodePoints :=
  [(0x605, 0x605), (0x70F, 0x70F), (0x890, 0x891), (0x8E2, 0x8E2), (0xD4E, 0xD4E),
    (0xA8FA, 0xA8FA), (0x111C2, 0x111C3), (0x1193F, 0x1193F), (0x11941, 0x11941),
    (0x11A3A, 0x11A3A), (0x11A84, 0x11A89), (0x11D46, 0x11D46), (0x11F02, 0x11F02)]

/-- Characters with a width of their own: a filler as wide as the consonant it stands
for, two Khmer signs that stand for several characters, and a letter joiner that is
drawn. -/
def ownWidth : List (Nat × Nat) := [(0x115F, 2), (0x17A4, 2), (0x17D8, 3), (0x2D7F, 1)]

/-- Whether a character shares the cell of another one, or is not drawn. -/
def isCellless (c : Char) : Bool :=
  ignorable.has c || graphemeExtend.has c || composedMark.has c || hangulPart.has c
    || leadingMark.has c

/-- How many cells a character takes. Below U+00A0 each one takes one cell, control
characters too. -/
def cells (c : Char) : Nat :=
  if c.toNat < 0xA0 then 1
  else match ownWidth.lookup c.toNat with
    | some width => width
    | none => if isCellless c then 0 else if eastAsianWide.has c then 2 else 1

theorem ignorable_ascending : ignorable.ascendingFrom 0xA0 = true := by decide +kernel

theorem hangulPart_ascending : hangulPart.ascendingFrom 0xA0 = true := by decide +kernel

theorem composedMark_ascending : composedMark.ascendingFrom 0xA0 = true := by decide +kernel

theorem leadingMark_ascending : leadingMark.ascendingFrom 0xA0 = true := by decide +kernel

end QuadAsm.Text
