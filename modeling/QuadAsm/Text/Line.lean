import QuadAsm.Text.Blank

/-! The lines of a text, as they are counted for a reader.

A line ends behind each of seven characters, and a carriage return with a newline behind
it is one end. The characters that end a line belong to it, so that the lines make up
the text (`flatten_lines`), and a text that closes its last line has no empty line
behind it. -/
namespace QuadAsm.Text

/-- The characters that end a line: newline, vertical tab, form feed, carriage return,
next line, line separator and paragraph separator. -/
def lineEnds : List Char := ['\n', '\x0b', '\x0c', '\r', '\u0085', '\u2028', '\u2029']

def isLineEnd (c : Char) : Bool := lineEnds.contains c

/-- Whether a line ends between two characters that follow each other. -/
def endsBetween (c next : Char) : Bool := isLineEnd c && !(c == '\r' && next == '\n')

/-- The lines of a text, each with the characters that end it. -/
def lines (cs : List Char) : List (List Char) := cs.splitBy fun c next => !endsBetween c next

/-- A line and where it stands in its text. -/
structure Line where
  /-- The line's number, the first being 1. -/
  number : Nat
  /-- How many characters stand before it. -/
  offset : Nat
  /-- The line with the characters that end it. -/
  chars : List Char

namespace Line

/-- The position behind the line. -/
def stop (line : Line) : Nat := line.offset + line.chars.length

/-- Whether the character at a position is one of the line. -/
def holds (line : Line) (position : Nat) : Bool := line.offset ≤ position && position < line.stop

/-- Of some lines that follow each other, the one that holds the character at a position
of the text, or the last if none of them does. -/
def among (position number offset : Nat) : List (List Char) → Line
  | [] => ⟨number, offset, []⟩
  | [chars] => ⟨number, offset, chars⟩
  | chars :: rest =>
    if position < offset + chars.length then ⟨number, offset, chars⟩
    else among position (number + 1) (offset + chars.length) rest

/-- The line that holds the character at a position of a text, or the last one. -/
def holding (source : List Char) (position : Nat) : Line := among position 1 0 (lines source)

/-- The line that a position of a text lies in. The end of the text still lies in the last
line, and nothing behind it does. -/
def at? (source : List Char) (position : Nat) : Option Line :=
  if position ≤ source.length then some (holding source position) else none

end Line

/-! ### Lemmas -/

theorem flatten_splitBy_loop {r : Char → Char → Bool} (cs : List Char) (c : Char)
    (line : List Char) (before : List (List Char)) :
    (List.splitBy.loop r cs c line before).flatten =
      before.reverse.flatten ++ (line.reverse ++ c :: cs) := by
  induction cs generalizing c line before with
  | nil =>
    change (((c :: line).reverse :: before).reverse).flatten = _
    simp
  | cons next cs ih =>
    change (match r c next with
      | true => List.splitBy.loop r cs next (c :: line) before
      | false => List.splitBy.loop r cs next [] ((c :: line).reverse :: before)).flatten = _
    split <;> simp [ih]

/-- No character is lost or moved. -/
theorem flatten_lines (cs : List Char) : (lines cs).flatten = cs := by
  cases cs with
  | nil => rfl
  | cons c cs => exact flatten_splitBy_loop cs c [] []

end QuadAsm.Text
