import QuadAsm.Proofs.Token.Lines

/-! Spans as pieces of a text.

A span that starts and ends on boundaries between characters covers a piece of the text
(`Span.Lies.piece`), and the span that covers two such spans is one again (`Span.Lies.cover`). What
stands between the tokens of one line has no newline in it, whatever it is. So each span that is
made of the tokens of one line covers a piece of that line (`Token.line_of_read`). -/
namespace QuadAsm

/-- The span is from a boundary between two characters to a later one, within these bounds. -/
structure Span.Lies (source : String) (lower upper : Nat) (span : Span) : Prop where
  start_valid : String.Pos.Raw.IsValid source ⟨span.start⟩
  stop_valid : String.Pos.Raw.IsValid source ⟨span.stop⟩
  nonempty : span.start < span.stop
  lower : lower ≤ span.start
  upper : span.stop ≤ upper

/-- The span covers some text without a newline. -/
def Span.OnLine (source : String) (span : Span) : Prop :=
  ∃ text, span.Covers source text ∧ text ≠ "" ∧ '\n' ∉ text.toList

namespace Span

variable {source text : String} {span other : Span} {lower upper : Nat}

/-! ### Boundaries -/

/-- Of two places where a text is cut, what stands before the first is part of what stands before
the second. -/
theorem exists_between {a b c d : String} (same : a ++ b = c ++ d)
    (le : a.utf8ByteSize ≤ c.utf8ByteSize) : ∃ e, c = a ++ e ∧ b = e ++ d := by
  have lists : a.toList ++ b.toList = c.toList ++ d.toList := by
    rw [← String.toList_append, same, String.toList_append]
  rcases List.append_eq_append_iff.mp lists with ⟨e, first, second⟩ | ⟨e, first, second⟩
  · refine ⟨String.ofList e, ?_, ?_⟩
    · rw [← String.toList_inj, first, String.toList_append, String.toList_ofList]
    · rw [← String.toList_inj, second, String.toList_append, String.toList_ofList]
  · -- Then the second place is not the later one, so nothing stands between the two.
    have whole : a = c ++ String.ofList e := by
      rw [← String.toList_inj, first, String.toList_append, String.toList_ofList]
    have nothing : String.ofList e = "" := by
      rw [whole, String.utf8ByteSize_append] at le
      exact String.utf8ByteSize_eq_zero_iff.mp (by omega)
    have none : e = [] := by simpa using congrArg String.toList nothing
    subst none
    refine ⟨"", by simp [whole], ?_⟩
    rw [← String.toList_inj, String.toList_append, second]
    rfl

theorem Covers.lies (covers : span.Covers source text) (nonempty : text ≠ "") :
    span.Lies source span.start span.stop := by
  obtain ⟨before, after, rfl, rfl⟩ := covers
  have positive : 0 < text.utf8ByteSize :=
    Nat.pos_of_ne_zero fun zero => nonempty (String.utf8ByteSize_eq_zero_iff.mp zero)
  refine ⟨?_, ?_, Nat.lt_add_of_pos_right positive, Nat.le_refl _, Nat.le_refl _⟩
  · apply String.Pos.Raw.isValid_iff_exists_append.mpr
    exact ⟨before, text ++ after, String.append_assoc, rfl⟩
  · apply String.Pos.Raw.isValid_iff_exists_append.mpr
    refine ⟨before ++ text, after, rfl, ?_⟩
    rw [String.Pos.Raw.ext_iff, String.byteIdx_rawEndPos, String.utf8ByteSize_append]

theorem Lies.mono {lower' upper' : Nat} (h : span.Lies source lower upper) (low : lower' ≤ lower)
    (high : upper ≤ upper') : span.Lies source lower' upper' :=
  ⟨h.start_valid, h.stop_valid, h.nonempty, Nat.le_trans low h.lower, Nat.le_trans h.upper high⟩

theorem Lies.stop_le (h : span.Lies source lower upper) : span.stop ≤ source.utf8ByteSize :=
  h.stop_valid.le_rawEndPos

/-- The span that covers two starts where one of them does and stops where one of them does. -/
theorem Lies.cover (h : span.Lies source lower upper) (h' : other.Lies source lower upper) :
    (span.cover other).Lies source lower upper := by
  have starts : (span.cover other).start = span.start ∨ (span.cover other).start = other.start := by
    show min span.start other.start = _ ∨ min span.start other.start = _
    omega
  have stops : (span.cover other).stop = span.stop ∨ (span.cover other).stop = other.stop := by
    show max span.stop other.stop = _ ∨ max span.stop other.stop = _
    omega
  refine ⟨?_, ?_, ?_, ?_, ?_⟩
  · rcases starts with same | same
    · exact same ▸ h.start_valid
    · exact same ▸ h'.start_valid
  · rcases stops with same | same
    · exact same ▸ h.stop_valid
    · exact same ▸ h'.stop_valid
  · exact Nat.lt_of_le_of_lt (Nat.min_le_left ..) (Nat.lt_of_lt_of_le h.nonempty (Nat.le_max_left ..))
  · exact Nat.le_min.mpr ⟨h.lower, h'.lower⟩
  · exact Nat.max_le.mpr ⟨h.upper, h'.upper⟩

/-- A span within a stretch of the source covers a piece of that stretch. -/
theorem Lies.piece {before stretch after : String} (split : source = before ++ stretch ++ after)
    (h : span.Lies source before.utf8ByteSize (before ++ stretch).utf8ByteSize) :
    ∃ text, span.Covers source text ∧ text ≠ "" ∧ ∀ c ∈ text.toList, c ∈ stretch.toList := by
  obtain ⟨a, b, cut, start⟩ := String.Pos.Raw.isValid_iff_exists_append.mp h.start_valid
  obtain ⟨c, d, cut', stop⟩ := String.Pos.Raw.isValid_iff_exists_append.mp h.stop_valid
  have start : span.start = a.utf8ByteSize := congrArg String.Pos.Raw.byteIdx start
  have stop : span.stop = c.utf8ByteSize := congrArg String.Pos.Raw.byteIdx stop
  have nonempty := h.nonempty
  rw [start, stop] at nonempty
  obtain ⟨e, rfl, _⟩ : ∃ e, a = before ++ e ∧ _ := by
    apply exists_between (b := stretch ++ after) (d := b) _ (start ▸ h.lower)
    rw [← cut, split, String.append_assoc]
  obtain ⟨text, rfl, rfl⟩ := exists_between (cut.symm.trans cut') (Nat.le_of_lt nonempty)
  obtain ⟨f, whole, _⟩ := exists_between (cut'.symm.trans split) (stop ▸ h.upper)
  have inside : stretch = e ++ text ++ f := by
    rw [← String.append_right_inj before, whole]
    simp only [String.append_assoc]
  refine ⟨text, ⟨before ++ e, d, cut.trans (String.append_assoc ..).symm, ?_⟩, ?_, ?_⟩
  · rw [← String.utf8ByteSize_append, ← start, ← stop]
  · rintro rfl
    simp at nonempty
  · intro x member
    rw [inside]
    simp [member]

end Span

namespace Token

variable {source : String} {tokens before run after : List Token} {token : Token}

/-! ### The tokens of a line -/

theorem Lexed.newline_free {start : Nat} {cs rest : List Char} {lexemes : List Token}
    (h : Lexed start cs lexemes rest) (member : token ∈ lexemes) (solid : token.kind ≠ .newline) :
    '\n' ∉ token.text.toList := by
  have spelled := (h.spelled_iff member token.kind).mpr rfl
  exact Kind.newline_free (Kind.matches_iff_spelled.mpr spelled) solid

/-- A lexeme lies among those before it and behind it. -/
theorem Lexed.lies {rest : List Char} (h : Lexed 0 source.toList (before ++ run ++ after) rest)
    (member : token ∈ run) :
    token.span.Lies source (bytes (chars before)) (bytes (chars (before ++ run))) := by
  have among : token ∈ before ++ run ++ after := by simp [member]
  obtain ⟨nonempty, covers⟩ := h.covers among
  refine (covers.lies nonempty).mono ?_ ?_
  all_goals
    obtain ⟨earlier, later, rfl⟩ := List.append_of_mem member
    rw [h.placed (before ++ earlier) token (later ++ after) (by simp)]
    simp only [chars_append, chars_cons, chars_nil, bytes_append, bytes_nil]
    omega

/-- The tokens of a line lie within bounds between which there is no newline. -/
theorem line_of_read (h : read source = .ok (before ++ run ++ after))
    (solid : ∀ token ∈ run, token.kind ≠ .newline) :
    ∃ lower upper, (∀ token ∈ run, token.span.Lies source lower upper) ∧
      ∀ span : Span, span.Lies source lower upper → span.OnLine source := by
  obtain ⟨lexemes, lexed, split⟩ := lexed_of_read h
  obtain ⟨first, later, rfl, here, _⟩ := List.filter_eq_append_iff.mp split.symm
  obtain ⟨earlier, line, rfl, _, kept⟩ := List.filter_eq_append_iff.mp here
  have solid (token : Token) (member : token ∈ line) : token.kind ≠ .newline := by
    by_cases trivial : token.kind.isTrivia = true
    · intro newline
      rw [newline] at trivial
      cases trivial
    · apply solid token
      rw [← kept]
      exact List.mem_filter.mpr ⟨member, by simpa using trivial⟩
  refine ⟨bytes (chars earlier), bytes (chars (earlier ++ line)), fun token member => ?_, ?_⟩
  · rw [← kept] at member
    exact lexed.lies ((List.mem_filter.mp member).1)
  · intro span lies
    have whole : source = String.ofList (chars earlier) ++ String.ofList (chars line) ++
        String.ofList (chars later) := by
      rw [← String.toList_inj, lexed.concat]
      simp [chars]
    have sizes : bytes (chars (earlier ++ line)) =
        (String.ofList (chars earlier) ++ String.ofList (chars line)).utf8ByteSize := by
      rw [chars_append, bytes_append, String.utf8ByteSize_append]
      rfl
    rw [sizes] at lies
    obtain ⟨text, covers, nonempty, inside⟩ := lies.piece whole
    refine ⟨text, covers, nonempty, fun newline => ?_⟩
    have among := inside '\n' newline
    rw [String.toList_ofList] at among
    obtain ⟨token, member, newline⟩ := List.mem_flatMap.mp among
    exact lexed.newline_free (by simp [member]) (solid token member) newline

/-- A token that is no newline stands on a line. -/
theorem onLine_of_read (h : read source = .ok tokens) (member : token ∈ tokens)
    (solid : token.kind ≠ .newline) : token.span.OnLine source := by
  obtain ⟨lexemes, lexed, rfl⟩ := lexed_of_read h
  have member := (List.mem_filter.mp member).1
  obtain ⟨nonempty, covers⟩ := lexed.covers member
  exact ⟨token.text, covers, nonempty, lexed.newline_free member solid⟩

theorem newline_of_read (h : read source = .ok tokens) (member : token ∈ tokens)
    (newline : token.kind = .newline) : token.span.Covers source "\n" := by
  have spelled := spelled_of_read h member
  rw [newline] at spelled
  have text : token.text = "\n" := String.toList_inj.mp spelled
  obtain ⟨lexemes, lexed, rfl⟩ := lexed_of_read h
  rw [← text]
  exact (lexed.covers (List.mem_filter.mp member).1).2

/-- The character that starts no token stands on a line. -/
theorem onLine_of_unread {d : Diagnostic} (h : read source = .error d) :
    ∃ c span, d = (Fault.unknownCharacter c).at span ∧ span.OnLine source := by
  obtain ⟨lexemes, c, rest, lexed, stuck, rfl⟩ := stuck_of_read h
  refine ⟨c, _, rfl, String.singleton c,
    ⟨String.ofList (chars lexemes), String.ofList rest, ?_, ?_⟩, ?_, ?_⟩
  · rw [← String.toList_inj, lexed.concat]
    simp
  · simp [bytes]
  · simp
  · intro newline
    have same : '\n' = c := by simpa using newline
    subst same
    exact stuck .newline ['\n'] (List.prefix_append ['\n'] rest) rfl

end Token

end QuadAsm
