import QuadAsm.Diagnostic
import QuadAsm.Text.Line
import QuadAsm.Text.Padding
import QuadAsm.Text.Width

/-! A diagnostic as a person reads it: the line at fault, underlined, with the message
below the middle of the underline.

Offsets are taken as counts of characters. Tabs are widened to columns of four and other
blanks shown as spaces. A row below the line gives every column as many cells as its
character takes, so that the underline stays below what it marks: a column whose
character takes no cell is left out. A span that goes on into later lines is not
underlined; its first and its last line are tied together at their left edge, and the
message hangs from the last one. What lies behind its line or behind the text is not
shown, nor is the message then. A diagnostic without a place is its kind alone. -/
namespace QuadAsm.Report

/-! ### Columns -/

/-- How many cells a character takes in a column: a tab reaches to the next multiple of
four, any other blank is shown as one space. -/
def width (c : Char) (column : Nat) : Nat :=
  if c = '\t' then 4 - column % 4 else if Text.isBlank c then 1 else Text.cells c

/-- What is shown for a character in a column. -/
def shown (c : Char) (column : Nat) : List Char :=
  if Text.isBlank c then List.replicate (width c column) ' ' else [c]

/-- A line as it is shown. -/
def lineText (line : List Char) : String :=
  String.ofList (line.zipIdx.flatMap fun (c, column) => shown c column)

/-- How many cells each of so many columns takes below a line. A column behind the line
takes one. -/
def widths (line : List Char) (columns : Nat) : List Nat :=
  (line.zipIdx.map fun (c, column) => width c column).take columns
    ++ List.replicate (columns - line.length) 1

/-- A row below a line. A column has one character for its first cell and another one for
its other cells. -/
def row (line : List Char) (columns : Nat) (lead fill : Nat → Char) : String :=
  String.ofList ((widths line columns).zipIdx.flatMap fun (width, column) =>
    (lead column :: List.replicate (width - 1) (fill column)).take width)

/-! ### The mark -/

/-- A stretch of one line of a text. -/
structure Mark where
  /-- The line's number, the first being 1. -/
  number : Nat
  /-- The line without the blanks at its end, and so without what ends it. -/
  line : List Char
  /-- The column of the first marked character, counted from 0. -/
  first : Nat
  /-- The column behind the last marked character. -/
  behind : Nat
  /-- The column the message hangs from. -/
  middle : Nat

namespace Mark

/-- The stretch that a span covers of the line it lies in. -/
def of (line : Text.Line) (span : Span) : Mark where
  number := line.number
  line := Text.trimEnd line.chars
  first := span.start - line.offset
  behind := span.stop - line.offset
  middle := (span.start + span.stop) / 2 - line.offset

def covers (mark : Mark) (column : Nat) : Bool := mark.first ≤ column && column < mark.behind

/-- A row below the mark, as far as one column behind it. -/
def row (mark : Mark) (lead fill : Nat → Char) : String :=
  Report.row mark.line (mark.behind + 2) lead fill

/-- The row that underlines the mark and shows where the message hangs. -/
def underline (mark : Mark) : String :=
  let fill column := if mark.covers column then '─' else ' '
  mark.row
    (fun column =>
      if column = mark.middle then if mark.covers column then '┬' else '│' else fill column)
    fill

/-- The row that leads from the underline to the message. -/
def arm (mark : Mark) : String :=
  mark.row
    (fun column =>
      if column < mark.middle then ' ' else if column = mark.middle then '╰' else '─')
    (fun column => if column < mark.middle then ' ' else '─')

end Mark

/-! ### The extent -/

/-- How a span lies in the lines of its text. -/
inductive Extent where
  /-- In one line. -/
  | within (mark : Mark)
  /-- From one line on into later ones, perhaps with others between them; it has no last
  line when it goes on behind the text. -/
  | across (opening : Text.Line) (skips : Bool) (closing? : Option Text.Line)
  /-- Behind the text, or from its last line on to just behind it. -/
  | outside

namespace Extent

/-- The position of a span's last character; a span without one ends where it starts. -/
def last (span : Span) : Nat := max span.start (span.stop - 1)

def of (source : List Char) (span : Span) : Extent :=
  match Text.Line.at? source span.start, Text.Line.at? source (last span) with
  | some opening, some closing =>
    if opening.number = closing.number then
      if span.stop ≤ opening.stop then .within (.of opening span) else .outside
    else if closing.holds (last span) then
      .across opening (opening.number + 1 < closing.number) (some closing)
    else .across opening true none
  | some opening, none =>
    if opening.holds span.start then .across opening (opening.stop < source.length) none
    else .outside
  | none, _ => .outside

end Extent

/-! ### The report -/

/-- The blanks before the bar at the side of a report whose line numbers have so many
digits. -/
def margin (digits : Nat) : String := Text.spaces (digits + 2)

/-- A line behind its number. -/
def numbered (digits number : Nat) (text : String) : String :=
  s!" {Text.alignRight digits (toString number)} │ {text}"

/-- The rows that show an extent and, if its end is shown, the message. -/
def rows (digits : Nat) (message : String) : Extent → List String
  | .within mark =>
    [numbered digits mark.number (lineText mark.line),
      s!"{margin digits}│ {mark.underline}",
      s!"{margin digits}│ {mark.arm} {message}"]
  | .across opening skips closing? =>
    let tied (edge : String) (line : Text.Line) :=
      numbered digits line.number (edge ++ lineText (Text.trimEnd line.chars))
    tied "╭─▶ " opening :: (if skips then [s!"{margin digits}┆ ┆   "] else []) ++
      match closing? with
      | some closing =>
        let below (c : Char) :=
          row (Text.trimEnd closing.chars) (closing.chars.length + 2) (fun _ => c) (fun _ => c)
        let blank := below ' '
        let bar := below '─'
        [tied "├─▶ " closing,
          s!"{margin digits}│ │   {blank}",
          s!"{margin digits}│ ╰───{bar} {message}"]
      | none => []
  | .outside => [s!"{margin digits}│ "]

/-- The line and the column of a position, as far as there are any. -/
def place (source : List Char) (position : Nat) : String :=
  match Text.Line.at? source position with
  | some line => s!"{line.number}:{position - line.offset + 1}"
  | none => "?:?"

/-- The lines of the box around what a span covers. -/
def box (file message : String) (source : List Char) (span : Span) : List String :=
  let number := (Text.Line.holding source (Extent.last span)).number
  let digits := (toString number).length
  s!"{margin digits}╭─[{file}:{place source span.start}]" :: s!"{margin digits}│" ::
    rows digits message (.of source span) ++ ["".pushn '─' (digits + 2) ++ "╯"]

/-- The report on a fault found in a file with this text. -/
def lines (file source : String) (d : Diagnostic) : List String :=
  s!"Error: {d.kind.text}" ::
    match d.span? with
    | none => []
    | some span => box file d.message source.toList span

def text (file source : String) (d : Diagnostic) : String :=
  String.join ((lines file source d).map (· ++ "\n"))

end QuadAsm.Report
