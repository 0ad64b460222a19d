import QuadAsm.Proofs.Text.Positions
import QuadAsm.Report

/-! What the rows of a report show.

A row below a line gives each column as many cells as the line does (`row_eq`), so that the stroke of
an underline is under what it marks (`Mark.underlines`). Which rows there are is told by where the
span ends: in the line that it starts in (`Extent.of_short`), or behind that (`Extent.of_long`). The
end itself is shown wherever it is in the text (`Extent.shown`). -/
namespace QuadAsm.Report

/-! ### The underline -/

/-- What a line shows, column by column. -/
def columns (line : List Char) : List (List Char) :=
  line.zipIdx.map fun (c, column) => shown c column

/-- How many cells of a terminal's grid a text takes. -/
def cellsOf : List Char → Nat
  | [] => 0
  | c :: cs => Text.cells c + cellsOf cs

/-- How many cells a line takes in a column: one behind its end. -/
def cellsAt (line : List Char) (column : Nat) : Nat :=
  cellsOf ((columns line)[column]?.getD [' '])

/-- A row that has as many cells in a column as the line, and a stroke in just the columns from
`first` to before `behind`. -/
def Underlines (row : String) (line : List Char) (first behind : Nat) : Prop :=
  ∃ (under : Nat → List Char) (count : Nat),
    row = String.ofList ((List.range count).flatMap under) ∧ behind ≤ count ∧
      ∀ column, (under column).length = cellsAt line column ∧ ∀ c ∈ under column,
        if first ≤ column ∧ column < behind then c = '─' ∨ c = '┬' else c = ' '

theorem cellsOf_spaces (count : Nat) : cellsOf (List.replicate count ' ') = count := by
  induction count with
  | zero => rfl
  | succ count ih =>
    rw [List.replicate_succ, cellsOf, ih, Nat.add_comm]
    rfl

theorem cellsOf_shown (c : Char) (column : Nat) : cellsOf (shown c column) = width c column := by
  unfold shown
  split
  · exact cellsOf_spaces _
  · rename_i drawn
    have tab : c ≠ '\t' := by
      rintro rfl
      exact drawn rfl
    simp [cellsOf, width, tab, drawn]

theorem cellsAt_eq (cs : List Char) (column : Nat) :
    cellsAt cs column = (cs[column]?.map (width · column)).getD 1 := by
  have found : (columns cs)[column]? = cs[column]?.map (shown · column) := by
    simp [columns, Function.comp_def]
  rw [cellsAt, found]
  cases cs[column]? with
  | none => rfl
  | some c => exact cellsOf_shown c column

theorem widths_eq (line : List Char) (count : Nat) :
    widths line count = (List.range count).map (cellsAt line) := by
  refine List.ext_getElem (by simp [widths]; omega) fun column _ bound => ?_
  rw [List.length_map, List.length_range] at bound
  simp only [widths, List.getElem_append, List.length_take, List.length_map, List.length_zipIdx,
    List.getElem_take, List.getElem_map, List.getElem_zipIdx, List.getElem_replicate,
    List.getElem_range, cellsAt_eq]
  split
  · rename_i inside
    rw [List.getElem?_eq_getElem (by omega)]
    simp
  · rename_i outside
    rw [List.getElem?_eq_none (by omega)]
    rfl

theorem row_eq (line : List Char) (count : Nat) (lead fill : Nat → Char) :
    row line count lead fill = String.ofList ((List.range count).flatMap fun column =>
      (lead column :: List.replicate (cellsAt line column - 1) (fill column)).take
        (cellsAt line column)) := by
  have columns : (widths line count).zipIdx =
      (List.range count).map fun column => (cellsAt line column, column) := by
    rw [widths_eq]
    refine List.ext_getElem (by simp) fun column _ _ => by simp
  rw [row, columns, List.flatMap_map]

/-- The row below a mark is a stroke under it. -/
theorem Mark.underlines {mark : Mark} (low : mark.first ≤ mark.middle)
    (high : mark.middle < mark.behind) :
    Underlines mark.underline mark.line mark.first mark.behind := by
  rw [underline, Mark.row, row_eq]
  refine ⟨_, mark.behind + 2, rfl, Nat.le_add_right .., fun column => ⟨?_, ?_⟩⟩
  · rw [List.length_take, List.length_cons, List.length_replicate]
    omega
  · intro c member
    have drawn := List.mem_of_mem_take member
    rw [List.mem_cons, List.mem_replicate] at drawn
    by_cases covered : mark.first ≤ column ∧ column < mark.behind
    · have inside : mark.covers column = true := by simpa [covers] using covered
      rw [if_pos covered]
      simp only [inside, if_true] at drawn
      grind
    · have outside : mark.covers column = false := by simpa [covers] using covered
      have apart : column ≠ mark.middle := by
        rintro rfl
        exact covered ⟨low, high⟩
      rw [if_neg covered]
      simp only [outside, apart, if_false] at drawn
      grind

/-! ### The extent -/

namespace Extent

open Text (Line)

variable {source : List Char} {span : Span}

theorem last_eq (proper : span.start < span.stop) : last span = span.stop - 1 :=
  max_eq_right (Nat.le_sub_one_of_lt proper)

/-- A span that ends in the line it starts in is shown as a mark of that line. -/
theorem of_short (proper : span.start < span.stop)
    (short : span.stop ≤ (Line.holding source span.start).stop) :
    of source span = .within (.of (Line.holding source span.start) span) ∧
      Line.holding source (last span) = Line.holding source span.start := by
  obtain ⟨_, bound, _⟩ := Line.holding_bounds source span.start
  have ends := last_eq proper
  have same : Line.holding source (last span) = Line.holding source span.start :=
    Line.holding_eq (by omega) (by omega)
  refine ⟨?_, same⟩
  rw [of, Line.at?_eq (by omega), Line.at?_eq (by omega), same]
  exact (if_pos rfl).trans (if_pos short)

/-- One that ends behind that line is not. -/
theorem of_long (inside : span.start < source.length)
    (long : (Line.holding source span.start).stop < span.stop) :
    of source span = .outside ∨
      ∃ skips closing?, of source span = .across (Line.holding source span.start) skips closing? := by
  rw [of, Line.at?_eq (Nat.le_of_lt inside)]
  split
  · rename_i opening closing found _
    cases found
    split
    · exact .inl (if_neg (Nat.not_le_of_lt long))
    · split <;> exact .inr ⟨_, _, rfl⟩
  · rename_i opening found _
    cases found
    split
    · exact .inr ⟨_, _, rfl⟩
    · exact .inl rfl
  · rename_i found
    cases found

/-- Of a span in the text the report shows the end. -/
theorem shown (proper : span.start < span.stop)
    (inside : span.stop ≤ source.length) :
    (∃ mark, of source span = .within mark) ∨
      ∃ opening skips closing, of source span = .across opening skips (some closing) := by
  have ends := last_eq proper
  obtain ⟨low, _, high⟩ := Line.holding_bounds source (last span)
  rw [of, Line.at?_eq (by omega), Line.at?_eq (by omega)]
  have start_le : span.start ≤ last span := Nat.le_max_left _ _
  rcases Line.holding_mono source start_le with same | later
  · left
    rw [same] at high ⊢
    exact ⟨_, (if_pos rfl).trans (if_pos (by omega))⟩
  · right
    have holds : (Line.holding source (last span)).holds (last span) = true := by
      simp only [Line.holds, Bool.and_eq_true, decide_eq_true_eq]
      omega
    exact ⟨_, _, _, (if_neg (Nat.ne_of_lt later)).trans (if_pos holds)⟩

end Extent

end QuadAsm.Report
