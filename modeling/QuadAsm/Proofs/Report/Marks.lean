import QuadAsm.Assembly
import QuadAsm.Proofs.Program.Listing
import QuadAsm.Proofs.Report.Rows
import QuadAsm.Proofs.Token.Scan
import Std.Data.String.ToNat

/-! What a report points at.

A span counts bytes, but a report takes its ends as counts of characters. Where every character is
one byte these are the same, and then the header names the line and the column of the span's text
(`header_iff`) and the stroke below the line is under that text (`exists_line`, `Mark.underlines`).
A character of more bytes before the text moves the report away from it (`header_moved`). One in the
text makes the stroke too long, since it has a column for each byte, and there is none if the line
has fewer left (`not_showsMarked_of_lt`, `points_where_ascii`). -/
namespace QuadAsm

variable {file before marked after text : String} {d : Diagnostic}

/-! ### Bytes and characters -/

namespace Text

/-- Every character is one byte. -/
def Ascii (text : String) : Prop := ∀ c ∈ text.toList, c.toNat < 128

instance (text : String) : Decidable (Ascii text) :=
  List.decidableBAll (fun c : Char => c.toNat < 128) text.toList

/-- There are at least as many bytes as characters, and no more just when every character is one
byte. -/
theorem length_le_bytes (cs : List Char) : cs.length ≤ Token.bytes cs ∧
    (Token.bytes cs = cs.length ↔ ∀ c ∈ cs, c.toNat < 128) := by
  induction cs with
  | nil => simp
  | cons c cs ih =>
    have positive := c.utf8Size_pos
    rw [List.forall_mem_cons, ← ih.2, ← utf8Size_eq_one_iff, Token.bytes_cons,
      List.length_cons]
    have le := ih.1
    omega

theorem length_le_utf8ByteSize (text : String) : text.toList.length ≤ text.utf8ByteSize := by
  simpa [Token.bytes] using (length_le_bytes text.toList).1

theorem utf8ByteSize_eq_length_iff : text.utf8ByteSize = text.toList.length ↔ Ascii text := by
  simpa [Token.bytes, Ascii] using (length_le_bytes text.toList).2

end Text

namespace Report

open Text (lastLine Plain Ascii)

/-! ### The header -/

/-- The line of a report that names a place, with so many blanks before it. -/
def header (indent : Nat) (file place : String) : String :=
  s!"{Text.spaces indent}╭─[{file}:{place}]"

/-- The report names this line and this column. -/
def Headed (report : List String) (file : String) (number column : Nat) : Prop :=
  ∃ indent, report[1]? = some (header indent file s!"{number}:{column}")

/-- What stands before a character that it does not hold, and what stands behind it. -/
theorem append_cons_inj {c : Char} {x y v w : List Char} (free : c ∉ x) (free' : c ∉ y)
    (h : x ++ c :: v = y ++ c :: w) : x = y ∧ v = w := by
  induction x generalizing y with
  | nil =>
    cases y with
    | nil => exact ⟨rfl, (List.cons.inj h).2⟩
    | cons d y => exact absurd (List.mem_cons.mpr (.inl (List.cons.inj h).1)) free'
  | cons d x ih =>
    rw [List.mem_cons, not_or] at free
    cases y with
    | nil => exact absurd (List.cons.inj h).1.symm free.1
    | cons e y =>
      rw [List.mem_cons, not_or] at free'
      obtain ⟨rfl, rest⟩ := List.cons.inj h
      obtain ⟨rfl, same⟩ := ih free.2 free'.2 rest
      exact ⟨rfl, same⟩

theorem notMem_repr {c : Char} (other : c.isDigit = false) (n : Nat) : c ∉ n.repr.toList := by
  intro member
  rw [Numeral.isDigit_of_mem_repr c member] at other
  cases other

theorem toList_header (indent : Nat) (file place : String) : (header indent file place).toList =
    List.replicate indent ' ' ++
      '╭' :: '─' :: '[' :: (file.toList ++ ':' :: (place.toList ++ [']'])) := by
  simp only [header, String.toList_append, toString, Program.toList_spaces, List.append_assoc]
  rfl

/-- A header tells the place. -/
theorem header_inj {indent other : Nat} {place place' : String} :
    header indent file place = header other file place' ↔ indent = other ∧ place = place' := by
  constructor
  · intro h
    have chars := congrArg String.toList h
    rw [toList_header, toList_header] at chars
    obtain ⟨indents, rest⟩ := append_cons_inj (by simp) (by simp) chars
    have places := List.append_cancel_left (List.cons.inj (List.cons.inj rest).2).2
    have same := List.append_cancel_right (List.cons.inj places).2
    exact ⟨by simpa using congrArg List.length indents, String.toList_injective same⟩
  · rintro ⟨rfl, rfl⟩
    rfl

theorem toList_place (number column : Nat) : s!"{number}:{column}".toList =
    number.repr.toList ++ ':' :: column.repr.toList := by
  simp only [String.toList_append, toString, List.append_assoc]
  rfl

/-- A place tells the line and the column. -/
theorem place_inj {m n c d : Nat} : s!"{m}:{c}" = s!"{n}:{d}" ↔ m = n ∧ c = d := by
  constructor
  · intro h
    have chars := congrArg String.toList h
    rw [toList_place, toList_place] at chars
    obtain ⟨numbers, columns⟩ :=
      append_cons_inj (notMem_repr (by decide) _) (notMem_repr (by decide) _) chars
    exact ⟨Nat.repr_inj.mp (String.toList_injective numbers),
      Nat.repr_inj.mp (String.toList_injective columns)⟩
  · rintro ⟨rfl, rfl⟩
    rfl

/-- No line and no column are none. -/
theorem place_ne (number column : Nat) : "?:?" ≠ s!"{number}:{column}" := by
  intro h
  have chars : ['?'] ++ ':' :: ['?'] = _ := (congrArg String.toList h).trans (toList_place ..)
  have unknown := (append_cons_inj (by decide) (notMem_repr (by decide) _) chars).1
  have digit := Numeral.isDigit_of_mem_repr '?' (unknown ▸ List.mem_singleton_self '?')
  cases digit

/-! ### Reports -/

/-- The number of the line that a text ends in. -/
def lineNumber (text : String) : Nat := 1 + text.toList.count '\n'

/-- The number of the column that a text ends before. -/
def columnNumber (text : String) : Nat := 1 + (lastLine text.toList).length

/-- The report shows the line in which `marked` stands behind the last line of `before` and in front
of `more`, and underlines so many columns from where `marked` starts. -/
def ShowsMarked (report : List String) (before marked : String) (more : List Char) (count : Nat) :
    Prop :=
  let shown := Text.trimEnd (lastLine before.toList ++ marked.toList ++ more)
  ∃ row, report[3]? = some s!" {lineNumber before} │ {lineText shown}" ∧
    report[4]? = some s!"{margin (toString (lineNumber before)).length}│ {row}" ∧
    Underlines row shown (lastLine before.toList).length ((lastLine before.toList).length + count)

/-- What stands behind `marked` in its own line: with the last line of `before` it makes up a line,
behind those that the rest of `before` makes up. -/
def RestOfLine (before marked after : String) (more : List Char) : Prop :=
  more <+: after.toList ∧ ∃ earlier later,
    Text.lines (before ++ marked ++ after).toList =
      earlier ++ (lastLine before.toList ++ marked.toList ++ more) :: later ∧
    before.toList = earlier.flatten ++ lastLine before.toList

/-- The span, in bytes, of `marked` behind `before`. -/
def spanOf (before marked : String) : Span :=
  ⟨before.utf8ByteSize, before.utf8ByteSize + marked.utf8ByteSize⟩

variable {source : String} {span : Span}

/-- How many digits the number of the last line has that a report shows. -/
def digits (source : String) (span : Span) : Nat :=
  (toString (Text.Line.holding source.toList (Extent.last span)).number).length

theorem lines_of_place (file source : String) (place : d.span? = some span) :
    lines file source d =
      s!"Error: {d.kind.text}" ::
        header (digits source span + 2) file (Report.place source.toList span.start) ::
          s!"{margin (digits source span)}│" ::
            rows (digits source span) d.message (.of source.toList span) ++
              ["".pushn '─' (digits source span + 2) ++ "╯"] := by
  rw [lines, place]
  rfl

/-- A report names the line and the column that its span starts at, if it starts in the text. -/
theorem headed_iff (place : d.span? = some span) {number column : Nat} :
    Headed (lines file source d) file number column ↔
      span.start ≤ source.toList.length ∧
        (Text.Line.holding source.toList span.start).number = number ∧
        span.start - (Text.Line.holding source.toList span.start).offset + 1 = column := by
  have named : Headed (lines file source d) file number column ↔
      Report.place source.toList span.start = s!"{number}:{column}" := by
    rw [Headed, lines_of_place file source place]
    simp only [List.cons_append, List.getElem?_cons_succ, List.getElem?_cons_zero, Option.some_inj,
      header_inj, exists_and_right, exists_eq', true_and]
  rw [named, Report.place]
  by_cases inside : span.start ≤ source.toList.length
  · rw [Text.Line.at?_eq inside, and_iff_right inside]
    exact place_inj
  · rw [Text.Line.at?, if_neg inside]
    exact iff_of_false (place_ne _ _) fun h => inside h.1

/-- A text that is not empty, and the text it stands in, from its first character on. -/
theorem exists_first (before after : String) (nonempty : marked ≠ "") :
    ∃ first tail, marked.toList = first :: tail ∧ (before ++ marked ++ after).toList =
      before.toList ++ first :: (tail ++ after.toList) := by
  obtain ⟨first, tail, split⟩ : ∃ first tail, marked.toList = first :: tail :=
    List.exists_cons_of_ne_nil (by simpa using nonempty)
  exact ⟨first, tail, split, by simp [split]⟩

/-- A header is right just behind ASCII text whose lines end in newlines. -/
theorem header_iff (nonempty : marked ≠ "") (place : d.span? = some (spanOf before marked)) :
    Headed (lines file (before ++ marked ++ after) d) file (lineNumber before)
        (columnNumber before) ↔
      Ascii before ∧ Plain (before.toList ++ marked.toList.take 1) := by
  obtain ⟨first, tail, split, whole⟩ := exists_first before after nonempty
  rw [headed_iff place, ← Text.utf8ByteSize_eq_length_iff, split, whole, List.take_succ_cons,
    List.take_zero, columnNumber, Nat.add_comm 1, Nat.add_right_cancel_iff]
  have le := Text.length_le_utf8ByteSize before
  refine (and_congr_right' (Text.Line.holding_iff (tail ++ after.toList) le)).trans
    (and_iff_right_of_imp ?_)
  rintro ⟨same, _⟩
  show before.utf8ByteSize ≤ _
  rw [same, List.length_append]
  exact Nat.le_add_right _ _

/-- The line at the end of a text of as many bytes as characters has the number that the newlines
tell, and goes on with what stands behind. -/
theorem exists_line (after : String) (ascii : Ascii before)
    (plain : Plain (before ++ marked).toList) (nonempty : marked ≠ "")
    (free : '\n' ∉ marked.toList.dropLast) :
    ∃ more offset, RestOfLine before marked after more ∧
      Text.Line.holding (before ++ marked ++ after).toList before.utf8ByteSize =
        ⟨lineNumber before, offset, lastLine before.toList ++ marked.toList ++ more⟩ ∧
      before.utf8ByteSize = offset + (lastLine before.toList).length := by
  obtain ⟨first, tail, split, whole⟩ := exists_first before after nonempty
  obtain ⟨earlier, here, more, later, around⟩ :=
    Text.Line.exists_around before.toList first (tail ++ after.toList)
  rw [String.toList_append, split] at plain
  rw [split] at free
  have before_first : Plain (before.toList ++ [first]) := (List.isChain_split.mp plain).1
  obtain ⟨others, rfl, start⟩ := around.exists_more plain free
  obtain rfl := around.lastLine_eq before_first
  have line : lastLine before.toList ++ first :: (tail ++ others) =
      lastLine before.toList ++ marked.toList ++ others := by
    simp [split]
  have found := around.found
  have length := congrArg List.length around.above
  rw [line] at found
  rw [List.length_append] at length
  unfold RestOfLine
  rw [whole, Text.utf8ByteSize_eq_length_iff.mpr ascii]
  refine ⟨others, earlier.flatten.length, ⟨start, earlier, later, ?_, around.above⟩, ?_, length⟩
  · rw [around.lines, line]
  · rw [found, lineNumber, around.plain_iff.mp before_first]

/-- A number needs no blanks before it in a column that is as wide as it is. -/
theorem numbered_self (number : Nat) (text : String) :
    numbered (toString number).length number text = s!" {number} │ {text}" := by
  have alone : Text.alignRight (toString number).length (toString number) = toString number := by
    rw [Text.alignRight, Nat.sub_self]
    exact String.empty_append
  rw [numbered, alone]
  rfl

/-- The row of a line that others are tied to is longer than it would be alone. -/
theorem numbered_ne (digits number : Nat) (text : String) :
    numbered digits number ("╭─▶ " ++ text) ≠ s!" {number} │ {text}" := by
  intro same
  have lengths := congrArg String.length same
  have edge : "╭─▶ ".length = 4 := rfl
  simp [numbered, Text.alignRight, toString, edge] at lengths
  omega

/-- A row without a number is not the row of a line. -/
theorem margin_ne (digits number : Nat) (text : String) :
    s!"{margin digits}│ " ≠ s!" {number} │ {text}" := by
  intro same
  have chars : List.replicate (digits + 2) ' ' ++ '│' :: [' '] =
      (' ' :: (number.repr.toList ++ [' '])) ++ '│' :: (' ' :: text.toList) := by
    have chars := congrArg String.toList same
    simpa [margin, Program.toList_spaces, toString] using chars
  have digit := notMem_repr (c := '│') (by decide) number
  obtain ⟨blank, _⟩ := append_cons_inj (by simp) (by simpa using digit) chars
  -- There would be a space among the digits.
  obtain ⟨c, rest, split⟩ := List.exists_cons_of_ne_nil (Numeral.repr_ne_nil number)
  have member : c ∈ number.repr.toList := split ▸ List.mem_cons_self
  have space : c ∈ List.replicate (digits + 2) ' ' := by
    rw [blank]
    exact List.mem_cons_of_mem _ (List.mem_append_left _ member)
  rw [List.eq_of_mem_replicate space] at member
  exact notMem_repr (by decide) number member

section Line

variable {more : List Char} {offset : Nat}
  (line : Text.Line.holding (before ++ marked ++ after).toList (spanOf before marked).start =
    ⟨lineNumber before, offset, lastLine before.toList ++ marked.toList ++ more⟩)
  (start : before.utf8ByteSize = offset + (lastLine before.toList).length)
  (nonempty : marked ≠ "") (place : d.span? = some (spanOf before marked))

include line start in
theorem stop_eq : (Text.Line.holding (before ++ marked ++ after).toList
      (spanOf before marked).start).stop =
    (spanOf before marked).start + (marked.toList.length + more.length) := by
  rw [line, Text.Line.stop]
  simp only [List.length_append, spanOf]
  omega

include line start nonempty place in
/-- What ends in its line is underlined there. -/
theorem showsMarked_of_le (short : marked.utf8ByteSize ≤ marked.toList.length + more.length) :
    ShowsMarked (lines file (before ++ marked ++ after) d) before marked more
      marked.utf8ByteSize := by
  have stop := stop_eq line start
  have positive : 0 < marked.utf8ByteSize := by
    rw [Nat.pos_iff_ne_zero, Ne, String.utf8ByteSize_eq_zero_iff]
    exact nonempty
  have behind : (spanOf before marked).stop =
    (spanOf before marked).start + marked.utf8ByteSize := rfl
  obtain ⟨within, last⟩ := @Extent.of_short (before ++ marked ++ after).toList
    (spanOf before marked) (by omega) (by omega)
  rw [line] at within last
  have wide : digits (before ++ marked ++ after) (spanOf before marked) =
      (toString (lineNumber before)).length := by
    rw [digits, last]
  have mark : Mark.of ⟨lineNumber before, offset, lastLine before.toList ++ marked.toList ++ more⟩
      (spanOf before marked) =
        { number := lineNumber before
          line := Text.trimEnd (lastLine before.toList ++ marked.toList ++ more)
          first := (lastLine before.toList).length
          behind := (lastLine before.toList).length + marked.utf8ByteSize
          middle := (lastLine before.toList).length + marked.utf8ByteSize / 2 } := by
    simp only [Mark.of, spanOf, start]
    congr 1 <;> omega
  rw [lines_of_place file _ place, within, wide, mark, rows, numbered_self]
  exact ⟨_, rfl, rfl, Mark.underlines (Nat.le_add_right ..) (by dsimp only; omega)⟩

include line start nonempty place in
/-- What goes on behind its line is not. -/
theorem not_showsMarked_of_lt (long : marked.toList.length + more.length < marked.utf8ByteSize)
    (count : Nat) :
    ¬ ShowsMarked (lines file (before ++ marked ++ after) d) before marked more count := by
  rintro ⟨row, shown, -⟩
  have stop := stop_eq line start
  have inside : (spanOf before marked).start < (before ++ marked ++ after).toList.length := by
    have bound := (Text.Line.holding_bounds (before ++ marked ++ after).toList
      (spanOf before marked).start).2.1
    have positive : 0 < marked.toList.length := List.length_pos_iff.mpr (by simpa using nonempty)
    omega
  have beyond : (spanOf before marked).start + (marked.toList.length + more.length) <
      (spanOf before marked).stop := Nat.add_lt_add_left long _
  rw [lines_of_place file _ place] at shown
  rcases Extent.of_long inside (stop ▸ beyond) with outside | ⟨skips, closing?, across⟩
  · rw [outside] at shown
    exact margin_ne _ _ _ (Option.some.inj shown)
  · rw [across, line] at shown
    exact numbered_ne _ _ _ (Option.some.inj shown)

end Line

/-- **A report points at a span's text where bytes are characters.** Its header names the line and
the column of that text just when everything before it is ASCII and has ended lines with newlines
only. Then its line is shown, and underlined from that column on for as many columns as the text has
bytes, just when the line has so many characters left; and these are the text's characters just when
it is ASCII. -/
theorem points_where_ascii (nonempty : marked ≠ "") (free : '\n' ∉ marked.toList.dropLast)
    (place : d.span? = some (spanOf before marked)) :
    (Headed (lines file (before ++ marked ++ after) d) file (lineNumber before)
          (columnNumber before) ↔
        Ascii before ∧ Plain (before.toList ++ marked.toList.take 1)) ∧
      (Ascii before → Plain (before ++ marked).toList →
        ∃ more, RestOfLine before marked after more ∧
          (ShowsMarked (lines file (before ++ marked ++ after) d) before marked more
              marked.utf8ByteSize ↔
            marked.utf8ByteSize ≤ marked.toList.length + more.length)) ∧
      (marked.utf8ByteSize = marked.toList.length ↔ Ascii marked) := by
  refine ⟨header_iff nonempty place, fun ascii plain => ?_, Text.utf8ByteSize_eq_length_iff⟩
  obtain ⟨more, offset, rest, line, start⟩ := exists_line after ascii plain nonempty free
  refine ⟨more, rest, fun shown => ?_, showsMarked_of_le line start nonempty place⟩
  exact Nat.le_of_not_lt fun long => not_showsMarked_of_lt line start nonempty place long _ shown

/-- The report on a register in the second line that is unknown. -/
theorem points_where_ascii_register : ∃ d, assemble "mov ax, 1\nmov ex, 2\n" = .error d ∧
    Headed (lines "prog.asm" "mov ax, 1\nmov ex, 2\n" d) "prog.asm" 2 1 ∧
    ∃ more, RestOfLine "mov ax, 1\n" "mov ex, 2" "\n" more ∧
      ShowsMarked (lines "prog.asm" "mov ax, 1\nmov ex, 2\n" d) "mov ax, 1\n" "mov ex, 2" more 9 := by
  have assembled : assemble "mov ax, 1\nmov ex, 2\n" =
    .error ((Fault.unknownRegister "ex").at ⟨10, 19⟩) := by decide +kernel
  obtain ⟨headed, shows, _⟩ := @points_where_ascii "prog.asm" "mov ax, 1\n" "mov ex, 2" "\n"
    ((Fault.unknownRegister "ex").at ⟨10, 19⟩) (by decide) (by decide) rfl
  obtain ⟨more, rest, shown⟩ := shows (by decide) (by decide)
  exact ⟨_, assembled, headed.mpr ⟨by decide, by decide⟩, more, rest,
    shown.mpr (Nat.le_add_right 9 _)⟩

/-- A character of two bytes in the line above moves the report one column on. -/
theorem header_moved : assemble "; é\nmov ex, 2\n" =
      .error ((Fault.unknownRegister "ex").at (spanOf "; é\n" "mov ex, 2")) ∧
    (lines "prog.asm" "; é\nmov ex, 2\n"
      ((Fault.unknownRegister "ex").at (spanOf "; é\n" "mov ex, 2")))[1]? =
        some "   ╭─[prog.asm:2:2]" ∧
    ¬ Headed (lines "prog.asm" "; é\nmov ex, 2\n"
      ((Fault.unknownRegister "ex").at (spanOf "; é\n" "mov ex, 2"))) "prog.asm"
        (lineNumber "; é\n") (columnNumber "; é\n") := by
  refine ⟨by decide +kernel, rfl, ?_⟩
  rintro ⟨indent, named⟩
  have moved : header 3 "prog.asm" "2:2" = header indent "prog.asm" _ := Option.some.inj named
  exact absurd (header_inj.mp moved).2 (by decide)

end Report

end QuadAsm
