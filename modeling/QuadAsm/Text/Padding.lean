/-! Columns of fixed width, counted in characters. A text wider than its column
is left as it is. -/
namespace QuadAsm.Text

/-- So many spaces. -/
def spaces (count : Nat) : String := "".pushn ' ' count

/-- The text at the right edge of its column. -/
def alignRight (width : Nat) (text : String) : String := spaces (width - text.length) ++ text

/-- The text at the left edge of its column. -/
def alignLeft (width : Nat) (text : String) : String := text ++ spaces (width - text.length)

end QuadAsm.Text
