import Mathlib.Data.List.DropRight
import Mathlib.Data.List.SplitBy
import QuadAsm.Text.Line

/-! Which line holds a character.

A line is found by a position (`Line.among_spec`, `Line.holding_bounds`), so a character stands
behind whole lines and a part of its own (`Line.exists_around`), and what lies further down is in
the same line as long as that lasts (`Line.holding_eq`), and else in one of a higher number
(`Line.holding_mono`). Where lines end behind newlines only, a character's line is told by how many
newlines stand before it and its column by what stands behind the last of them, and no other
position is told so (`Line.holding_iff`). -/
namespace QuadAsm.Text

variable {cs before here line : List Char} {lines earlier later : List (List Char)} {first c : Char}

/-- Lines end behind newlines only. -/
def Plain (cs : List Char) : Prop := cs.IsChain fun c next => endsBetween c next = true → c = '\n'

instance (cs : List Char) : Decidable (Plain cs) := inferInstanceAs (Decidable (List.IsChain _ cs))

/-- What stands behind the last newline. -/
def lastLine (cs : List Char) : List Char := cs.rtakeWhile (· != '\n')

/-- No line ends inside the text. -/
def Unended (cs : List Char) : Prop := cs.IsChain fun c next => endsBetween c next = false

/-- Behind a line's last character, and before the first one of the next line, a line ends. -/
def Ends (line next : List Char) : Prop :=
  ∃ c ∈ line.getLast?, ∃ d ∈ next.head?, endsBetween c d = true

/-! ### The lines of a text -/

/-- A line ends behind every newline. -/
theorem endsBetween_newline (next : Char) : endsBetween '\n' next = true := rfl

theorem ne_nil_of_mem_lines (h : line ∈ Text.lines cs) : line ≠ [] := List.ne_nil_of_mem_splitBy h

theorem unended_of_mem_lines (h : line ∈ Text.lines cs) : Unended line := by
  have chain := List.isChain_of_mem_splitBy h
  simpa [Unended] using chain

theorem isChain_lines (cs : List Char) : (Text.lines cs).IsChain Ends := by
  refine (List.isChain_getLast_head_splitBy _ cs).imp ?_
  rintro line next ⟨nonempty, nonempty', ends⟩
  refine ⟨_, List.getLast_mem_getLast? nonempty, _, List.head_mem_head? nonempty', ?_⟩
  simpa using ends

/-- A line has no newline but its last character. -/
theorem Unended.newline_free (h : Unended cs) : '\n' ∉ cs.dropLast := by
  induction cs with
  | nil => simp
  | cons c cs ih =>
    cases cs with
    | nil => simp
    | cons d cs =>
      obtain ⟨between, later⟩ := List.isChain_cons_cons.mp h
      rw [List.dropLast_cons_cons, List.mem_cons, not_or]
      refine ⟨?_, ih later⟩
      rintro rfl
      rw [endsBetween_newline] at between
      cases between

/-- Lines have as many newlines as there are among their last characters. -/
theorem count_flatten (free : ∀ line ∈ lines, '\n' ∉ line.dropLast) :
    lines.flatten.count '\n' = lines.countP (·.getLast? == some '\n') := by
  induction lines with
  | nil => rfl
  | cons line lines ih =>
    obtain ⟨free, others⟩ := List.forall_mem_cons.mp free
    rw [List.flatten_cons, List.count_append, List.countP_cons, ih others, Nat.add_comm]
    congr 1
    rcases List.eq_nil_or_concat' line with rfl | ⟨front, last, rfl⟩
    · rfl
    · rw [List.dropLast_concat] at free
      simp [List.count_append, List.count_eq_zero.mpr free, List.count_singleton]

/-- Between lines there are newlines just when every line but the last ends in one. -/
theorem isChain_newline_iff (ends : (lines ++ [line]).IsChain Ends) :
    (lines ++ [line]).IsChain (fun line next =>
        ∀ c ∈ line.getLast?, ∀ d ∈ next.head?, endsBetween c d = true → c = '\n') ↔
      ∀ other ∈ lines, other.getLast? = some '\n' := by
  induction lines with
  | nil => simp
  | cons other lines ih =>
    obtain ⟨next, rest, split⟩ : ∃ next rest, lines ++ [line] = next :: rest :=
      List.exists_cons_of_ne_nil (by simp)
    rw [List.cons_append, split, List.isChain_cons_cons] at ends ⊢
    rw [List.forall_mem_cons, ← ih (split ▸ ends.2), split]
    refine and_congr_left' ?_
    obtain ⟨c, last, d, head, between⟩ := ends.1
    rw [Option.mem_def] at last head
    simp [last, head, between]

/-- Text that falls into lines is plain just when every line but the last ends in a newline. -/
theorem plain_flatten_iff (nonempty : [] ∉ lines ++ [line])
    (unended : ∀ other ∈ lines ++ [line], Unended other) (ends : (lines ++ [line]).IsChain Ends) :
    Plain (lines ++ [line]).flatten ↔ ∀ other ∈ lines, other.getLast? = some '\n' := by
  rw [← isChain_newline_iff ends]
  refine (List.isChain_flatten nonempty).trans (and_iff_right ?_)
  intro other member
  refine (unended other member).imp fun c next between ends => ?_
  rw [between] at ends
  cases ends

/-! ### The line at a position -/

namespace Line

variable {position other number offset : Nat} {source rest : List Char}

/-- The line that is found for a position holds it, or is the last. -/
theorem among_spec (number : Nat) (nonempty : lines ≠ []) (low : offset ≤ position) :
    ∃ earlier line later, lines = earlier ++ line :: later ∧
      among position number offset lines =
        ⟨number + earlier.length, offset + earlier.flatten.length, line⟩ ∧
      offset + earlier.flatten.length ≤ position ∧
      (position < offset + earlier.flatten.length + line.length ∨ later = []) := by
  fun_induction among position number offset lines with
  | case1 => exact absurd rfl nonempty
  | case2 number offset line => exact ⟨[], line, [], rfl, rfl, low, .inr rfl⟩
  | case3 number offset line lines _ here => exact ⟨[], line, lines, rfl, rfl, low, .inl here⟩
  | case4 number offset line lines more beyond ih =>
    obtain ⟨earlier, last, later, split, found, low, high⟩ := ih more (Nat.le_of_not_lt beyond)
    refine ⟨line :: earlier, last, later, by rw [split]; rfl, ?_, ?_, ?_⟩
    · rw [found, List.length_cons, List.flatten_cons, List.length_append]
      congr 1 <;> omega
    · rw [List.flatten_cons, List.length_append]
      omega
    · rw [List.flatten_cons, List.length_append]
      refine high.imp_left fun high => ?_
      omega

theorem le_number (position number offset : Nat) (lines : List (List Char)) :
    number ≤ (among position number offset lines).number := by
  fun_induction among position number offset lines with
  | case4 number offset line lines _ _ ih => exact Nat.le_of_succ_le ih
  | _ => exact Nat.le_refl _

/-- Further down the line is the same, or a later one. -/
theorem among_mono (le : position ≤ other) (number offset : Nat) (lines : List (List Char)) :
    among other number offset lines = among position number offset lines ∨
      (among position number offset lines).number < (among other number offset lines).number := by
  fun_induction among position number offset lines with
  | case1 | case2 => exact .inl rfl
  | case3 number offset line lines more here =>
    rw [among]
    split
    · exact .inl rfl
    · exact .inr (le_number other (number + 1) _ lines)
    · exact more
  | case4 number offset line lines more beyond ih =>
    rw [among, if_neg (by omega)]
    · exact ih
    · exact more

theorem at?_eq (le : position ≤ source.length) :
    at? source position = some (holding source position) :=
  if_pos le

/-- The line is the same as long as it lasts. -/
theorem among_eq (low : position ≤ other) (number offset : Nat) (lines : List (List Char))
    (high : other < (among position number offset lines).stop) :
    among other number offset lines = among position number offset lines := by
  fun_induction among position number offset lines with
  | case1 | case2 => rfl
  | case3 number offset line lines more here =>
    rw [among]
    · exact if_pos high
    · exact more
  | case4 number offset line lines more beyond ih =>
    rw [among, if_neg (by omega)]
    · exact ih high
    · exact more

theorem holding_eq (low : position ≤ other) (high : other < (holding source position).stop) :
    holding source other = holding source position :=
  among_eq low 1 0 (Text.lines source) high

/-- The line starts where or before the position is, and does not go beyond the text. It goes beyond
the position if that is not at the end. -/
theorem holding_bounds (source : List Char) (position : Nat) :
    (holding source position).offset ≤ position ∧
      (holding source position).stop ≤ source.length ∧
      (position < (holding source position).stop ∨
        (holding source position).stop = source.length) := by
  cases source with
  | nil => exact ⟨Nat.zero_le _, Nat.le_refl _, .inr rfl⟩
  | cons c cs =>
    have nonempty : Text.lines (c :: cs) ≠ [] := List.splitBy_ne_nil.mpr (List.cons_ne_nil c cs)
    obtain ⟨earlier, line, later, split, found, low, high⟩ :=
      among_spec 1 nonempty (Nat.zero_le position)
    have length := congrArg List.length (flatten_lines (c :: cs))
    rw [split, List.flatten_append, List.flatten_cons, List.length_append, List.length_append]
      at length
    rw [holding, found, stop]
    refine ⟨low, by dsimp only; omega, high.imp_right ?_⟩
    rintro rfl
    simpa using length

theorem holding_mono (source : List Char) (le : position ≤ other) :
    holding source other = holding source position ∨
      (holding source position).number < (holding source other).number :=
  among_mono le 1 0 (Text.lines source)

/-- How a text falls into lines around a character: it stands behind `earlier` lines and the
characters `here` of its own line, before those that are `more` in it and the `later` lines. -/
structure Around (before : List Char) (first : Char) (rest : List Char)
    (earlier : List (List Char)) (here more : List Char) (later : List (List Char)) : Prop where
  lines : Text.lines (before ++ first :: rest) = earlier ++ (here ++ first :: more) :: later
  above : before = earlier.flatten ++ here
  found : holding (before ++ first :: rest) before.length =
    ⟨1 + earlier.length, earlier.flatten.length, here ++ first :: more⟩

theorem exists_around (before : List Char) (first : Char) (rest : List Char) :
    ∃ earlier here more later, Around before first rest earlier here more later := by
  have nonempty : Text.lines (before ++ first :: rest) ≠ [] := List.splitBy_ne_nil.mpr (by simp)
  obtain ⟨earlier, line, later, split, found, low, high⟩ :=
    among_spec 1 nonempty (Nat.zero_le before.length)
  rw [Nat.zero_add] at found low high
  have whole : earlier.flatten ++ (line ++ later.flatten) = before ++ first :: rest := by
    rw [← flatten_lines (before ++ first :: rest), split, List.flatten_append, List.flatten_cons]
  obtain ⟨here, rfl⟩ : earlier.flatten <+: before := by
    refine List.prefix_of_prefix_length_le ⟨_, whole⟩ (List.prefix_append before _) low
  rw [List.append_assoc] at whole
  have whole := List.append_cancel_left whole
  have short : here.length < line.length := by
    rcases high with high | rfl
    · rw [List.length_append] at high
      omega
    · have length := congrArg List.length whole
      simp only [List.flatten_nil, List.length_append, List.length_cons, List.length_nil] at length
      omega
  obtain ⟨tail, rfl⟩ : here <+: line :=
    List.prefix_of_prefix_length_le (List.prefix_append here _) ⟨_, whole⟩ (Nat.le_of_lt short)
  rw [List.append_assoc] at whole
  have whole := List.append_cancel_left whole
  cases tail with
  | nil => simp at short
  | cons c more =>
    cases whole
    exact ⟨earlier, here, more, later, split, rfl, found⟩

namespace Around

variable {more : List Char}

theorem rest_eq (h : Around before first rest earlier here more later) :
    rest = more ++ later.flatten := by
  have whole := flatten_lines (before ++ first :: rest)
  rw [h.lines, h.above, List.flatten_append, List.flatten_cons, List.append_assoc,
    List.append_assoc] at whole
  simpa using (List.append_cancel_left (List.append_cancel_left whole)).symm

theorem unended (h : Around before first rest earlier here more later) :
    ∀ line ∈ earlier ++ [here ++ [first]], Unended line := by
  have unended {line : List Char} (member : line ∈ earlier ++ (here ++ first :: more) :: later) :
      Unended line := unended_of_mem_lines (h.lines ▸ member)
  intro line member
  rcases List.mem_append.mp member with above | this
  · exact unended (List.mem_append_left _ above)
  · obtain rfl := List.mem_singleton.mp this
    have whole : Unended (here ++ [first] ++ more) := by
      rw [List.append_assoc]
      exact unended (List.mem_append_right _ List.mem_cons_self)
    exact List.IsChain.left_of_append whole

theorem nil_notMem (h : Around before first rest earlier here more later) :
    [] ∉ earlier ++ [here ++ [first]] := by
  have nonempty : [] ∉ earlier ++ (here ++ first :: more) :: later :=
    fun member => ne_nil_of_mem_lines (h.lines ▸ member) rfl
  simp_all

theorem ends (h : Around before first rest earlier here more later) :
    (earlier ++ [here ++ [first]]).IsChain Ends := by
  have chain := isChain_lines (before ++ first :: rest)
  rw [h.lines, List.isChain_append] at chain
  obtain ⟨above, -, between⟩ := chain
  refine List.isChain_append.mpr ⟨above, List.isChain_singleton _, fun line last next this => ?_⟩
  obtain rfl := Option.some.inj this
  obtain ⟨c, closes, d, opens, ended⟩ := between line last _ rfl
  refine ⟨c, closes, d, ?_, ended⟩
  cases here <;> exact opens

theorem newline_free (h : Around before first rest earlier here more later) : '\n' ∉ here := by
  simpa using (h.unended (here ++ [first]) (by simp)).newline_free

theorem count_eq (h : Around before first rest earlier here more later) :
    before.count '\n' = earlier.countP (·.getLast? == some '\n') := by
  rw [h.above, List.count_append, List.count_eq_zero.mpr h.newline_free, Nat.add_zero]
  exact count_flatten fun line member => (h.unended line (by simp [member])).newline_free

/-- Lines end behind newlines only just when there are as many newlines as lines above. -/
theorem plain_iff (h : Around before first rest earlier here more later) :
    Plain (before ++ [first]) ↔ before.count '\n' = earlier.length := by
  have whole : before ++ [first] = (earlier ++ [here ++ [first]]).flatten := by simp [h.above]
  rw [whole, plain_flatten_iff h.nil_notMem h.unended h.ends, h.count_eq, List.countP_eq_length]
  simp

theorem lastLine_eq (h : Around before first rest earlier here more later)
    (plain : Plain (before ++ [first])) : lastLine before = here := by
  have free : ∀ c ∈ here.reverse, (c != '\n') = true := by
    intro c member
    rw [bne_iff_ne]
    rintro rfl
    exact h.newline_free (List.mem_reverse.mp member)
  have all := List.countP_eq_length.mp (h.count_eq.symm.trans (h.plain_iff.mp plain))
  rw [lastLine, List.rtakeWhile, h.above, List.reverse_append, List.takeWhile_append_of_pos free,
    List.reverse_append, List.reverse_reverse]
  rcases List.eq_nil_or_concat' earlier with rfl | ⟨front, last, rfl⟩
  · rfl
  · obtain ⟨start, rfl⟩ := List.getLast?_eq_some_iff.mp (beq_iff_eq.mp (all last (by simp)))
    simp

/-- Behind the last character of the line the line ends. -/
theorem ended {front : List Char} {d : Char}
    (h : Around before first rest earlier here more later) (closes : first :: more = front ++ [c])
    (opens : later.flatten.head? = some d) : endsBetween c d = true := by
  have chain := isChain_lines (before ++ first :: rest)
  cases later with
  | nil => cases opens
  | cons next others =>
    have nonempty : next ≠ [] := ne_nil_of_mem_lines (by rw [h.lines]; simp)
    rw [h.lines, List.isChain_append_cons_cons, closes] at chain
    obtain ⟨c', last, d', head, between⟩ := chain.2.1
    obtain ⟨e, next, rfl⟩ := List.exists_cons_of_ne_nil nonempty
    cases opens
    cases head
    rw [← List.append_assoc, List.getLast?_concat] at last
    cases last
    exact between

/-- A stretch of plain text without a newline before its last character stays in its line. -/
theorem exists_more {tail after : List Char}
    (h : Around before first (tail ++ after) earlier here more later)
    (plain : Plain (before ++ first :: tail)) (free : '\n' ∉ (first :: tail).dropLast) :
    ∃ others, more = tail ++ others ∧ others <+: after := by
  rcases List.append_eq_append_iff.mp h.rest_eq with ⟨others, rfl, rfl⟩ | ⟨cut, rfl, rest⟩
  · exact ⟨others, rfl, List.prefix_append others _⟩
  cases cut with
  | nil => exact ⟨[], by simp, List.nil_prefix⟩
  | cons d cut =>
    obtain ⟨front, c, closes⟩ : ∃ front c, first :: more = front ++ [c] :=
      (List.eq_nil_or_concat' (first :: more)).resolve_left (List.cons_ne_nil first more)
    have between : endsBetween c d = true := h.ended closes (by rw [rest]; rfl)
    -- The line would end before `d`, so behind a newline, but the stretch has none there.
    have whole : first :: (more ++ d :: cut) = front ++ c :: d :: cut := by
      rw [← List.cons_append, closes, List.append_assoc, List.singleton_append]
    rw [whole] at plain free
    rw [← List.append_assoc, Plain, List.isChain_append_cons_cons] at plain
    rw [plain.2.1 between] at free
    simp at free

end Around

/-- **A character's line and column are told by newlines where lines end behind newlines only.** Of
the positions from a character on, its own alone lies in the line and the column that the newlines
before it tell, and this only if nothing else has ended a line there. -/
theorem holding_iff (rest : List Char) (le : before.length ≤ position) :
    ((holding (before ++ first :: rest) position).number = 1 + before.count '\n' ∧
        position - (holding (before ++ first :: rest) position).offset = (lastLine before).length) ↔
      position = before.length ∧ Plain (before ++ [first]) := by
  obtain ⟨earlier, here, more, later, around⟩ := exists_around before first rest
  have length := congrArg List.length around.above
  rw [List.length_append] at length
  constructor
  · rintro ⟨number, column⟩
    have most : before.count '\n' ≤ earlier.length := around.count_eq ▸ List.countP_le_length
    rcases holding_mono (before ++ first :: rest) le with same | further
    · rw [same, around.found] at number column
      have plain := around.plain_iff.mpr (Nat.add_left_cancel number).symm
      rw [around.lastLine_eq plain] at column
      dsimp only at column
      exact ⟨by omega, plain⟩
    · rw [around.found] at further
      dsimp only at further
      omega
  · rintro ⟨rfl, plain⟩
    rw [around.found, around.lastLine_eq plain, around.plain_iff.mp plain]
    exact ⟨rfl, by dsimp only; omega⟩

end Line

end QuadAsm.Text
