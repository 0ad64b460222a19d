import QuadAsm.Text.CodePoints

/-! White space as the Unicode property White_Space has it: 25 characters, of which
the core library's `Char.isWhitespace` knows the first few. A report drops such
characters from the end of the line it shows, and shows the others as spaces. -/
namespace QuadAsm.Text

/-- The characters of the property White_Space. -/
def blanks : CodePoints :=
  [(0x09, 0x0D), (0x20, 0x20), (0x85, 0x85), (0xA0, 0xA0), (0x1680, 0x1680), (0x2000, 0x200A),
    (0x2028, 0x2029), (0x202F, 0x202F), (0x205F, 0x205F), (0x3000, 0x3000)]

def isBlank (c : Char) : Bool := blanks.has c

/-- A text without the blanks at its end. -/
def trimEnd (cs : List Char) : List Char := cs.reverse.dropWhile isBlank |>.reverse

end QuadAsm.Text
