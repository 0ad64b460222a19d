import QuadAsm.Proofs.Shift
import QuadAsm.Proofs.Token.Munch

/-! Reading line by line.

No token but a newline has a newline in it, so what stands behind a newline does not matter to
what is read before it (`Lexed.before_newline`), nor the other way round. A text, a newline and a
second text are therefore read as the tokens of the first, the newline, and the tokens of the
second further on (`read_lines`). -/
namespace QuadAsm.Token

/-! ### Before a newline -/

/-- A text without a newline that starts `cs` and what follows a newline starts `cs`. -/
theorem starts_before_newline {w cs rest : List Char} (h : w <+: cs ++ '\n' :: rest)
    (solid : '\n' ∉ w) : w <+: cs := by
  rcases Nat.le_total w.length cs.length with short | long
  · exact List.prefix_of_prefix_length_le h (List.prefix_append ..) short
  · obtain ⟨more, rfl⟩ := List.prefix_of_prefix_length_le (List.prefix_append cs _) h long
    cases more with
    | nil => simp
    | cons c more =>
      obtain ⟨_, rest'⟩ := h
      simp only [List.append_assoc, List.append_cancel_left_eq, List.cons_append,
        List.cons.injEq] at rest'
      exact absurd (by simp [rest'.1]) solid

theorem Kind.goesOn_newline (kind : Kind) : kind.goesOn '\n' = false := by cases kind <;> rfl

/-- No token but a newline has a newline in it. -/
theorem Kind.newline_free {kind : Kind} {w : List Char} (matched : kind.pattern.Matches w)
    (solid : kind ≠ .newline) : '\n' ∉ w := by
  obtain ⟨c, cs, rfl, starts, on⟩ := Kind.eq_cons_of_matches matched
  intro member
  rcases List.mem_cons.mp member with rfl | later
  · cases kind with
    | newline => exact solid rfl
    | _ => cases starts
  · exact absurd (on '\n' later) (Bool.eq_false_iff.mp kind.goesOn_newline)

/-- A token that starts in a text does not go past the newline behind it. -/
theorem Kind.Spelled.starts_before_newline {kind : Kind} {w cs rest : List Char}
    (spelled : kind.Spelled w) (nonempty : cs ≠ []) (h : w <+: cs ++ '\n' :: rest) : w <+: cs := by
  obtain ⟨c, later, rfl, _, on⟩ := Kind.eq_cons_of_matches (Kind.matches_iff_spelled.mpr spelled)
  obtain ⟨d, cs, rfl⟩ := List.exists_cons_of_ne_nil nonempty
  rw [List.cons_append, List.cons_prefix_cons] at h
  refine List.cons_prefix_cons.mpr ⟨h.1, Token.starts_before_newline h.2 fun newline => ?_⟩
  exact absurd (on '\n' newline) (Bool.eq_false_iff.mp kind.goesOn_newline)

theorem IsLongest.before_newline {cs w : List Char} {kind : Kind} (h : IsLongest cs kind w)
    (rest : List Char) : IsLongest (cs ++ '\n' :: rest) kind w := by
  have nonempty : cs ≠ [] := by
    rintro rfl
    have nothing := List.prefix_nil.mp h.starts
    obtain ⟨_, _, some, _⟩ := Kind.eq_cons_of_matches (Kind.matches_iff_spelled.mpr h.spelled)
    rw [nothing] at some
    cases some
  refine ⟨h.starts.trans (List.prefix_append ..), h.spelled, fun other v starts spelled => ?_⟩
  exact h.longest other v (spelled.starts_before_newline nonempty starts) spelled

theorem Stuck.before_newline {cs : List Char} (h : Stuck cs) (nonempty : cs ≠ [])
    (rest : List Char) : Stuck (cs ++ '\n' :: rest) :=
  fun kind w starts spelled => h kind w (spelled.starts_before_newline nonempty starts) spelled

/-- What follows a newline does not matter to the lexemes before it. -/
theorem Lexed.before_newline {start : Nat} {cs rest : List Char} {lexemes : List Token}
    (h : Lexed start cs lexemes rest) (others : List Char) :
    Lexed start (cs ++ '\n' :: others) lexemes (rest ++ '\n' :: others) := by
  refine ⟨?_, fun before token after split => ?_, h.placed⟩
  · rw [h.concat, List.append_assoc]
  · rw [← List.append_assoc]
    exact (h.longest before token after split).before_newline others

/-! ### Behind a newline -/

theorem Lexed.shift {start : Nat} {cs rest : List Char} {lexemes : List Token}
    (h : Lexed start cs lexemes rest) (n : Nat) :
    Lexed (start + n) cs (lexemes.map (Token.shift n)) rest := by
  induction lexemes generalizing start cs with
  | nil => exact lexed_nil_iff.mpr (lexed_nil_iff.mp h)
  | cons token lexemes ih =>
    obtain ⟨more, split, longest, here, later⟩ := lexed_cons_iff.mp h
    refine lexed_cons_iff.mpr ⟨more, split, longest, ?_, ?_⟩
    · simp only [span_shift, here, Span.shift, text_shift, Nat.add_right_comm]
    · rw [Nat.add_right_comm]
      exact ih later

theorem Lexed.append {start : Nat} {cs middle rest : List Char} {lexemes others : List Token}
    (h : Lexed start cs lexemes middle)
    (h' : Lexed (start + bytes (chars lexemes)) middle others rest) :
    Lexed start cs (lexemes ++ others) rest := by
  have first := scans_of_lexed h
  rw [h'.concat] at first
  have both := lexed_of_scans (first.append (scans_of_lexed h'))
  rwa [List.append_assoc, ← h'.concat, ← h.concat] at both

/-- The newline that stands at a byte. -/
def newlineAt (start : Nat) : Token := ⟨.newline, "\n", ⟨start, start + 1⟩⟩

/-- Lexemes of a text, a newline, and lexemes of a second text. -/
theorem Lexed.lines {cs others rest : List Char} {lexemes later : List Token}
    (h : Lexed 0 cs lexemes []) (h' : Lexed 0 others later rest) :
    Lexed 0 (cs ++ '\n' :: others)
      (lexemes ++ newlineAt (bytes cs) :: later.map (Token.shift (bytes cs + 1))) rest := by
  have whole : chars lexemes = cs := by rw [h.concat, List.append_nil]
  have text : (newlineAt (bytes cs)).text.toList = ['\n'] := by simp [newlineAt]
  have newline : IsLongest (['\n'] ++ others) .newline ['\n'] := by
    have alone : Kind.newline.pattern.Matches ['\n'] := .plain (.head rfl (.run nofun))
    exact longest?_eq_some_iff.mp (longest?_of_matches alone fun _ _ => rfl)
  have further : Lexed (bytes cs + 1) others (later.map (Token.shift (bytes cs + 1))) rest := by
    have moved := h'.shift (bytes cs + 1)
    rwa [Nat.zero_add] at moved
  have second : Lexed (bytes cs) ('\n' :: others)
      (newlineAt (bytes cs) :: later.map (Token.shift (bytes cs + 1))) rest := by
    rw [lexed_cons_iff, text]
    exact ⟨others, rfl, newline, rfl, further⟩
  refine (h.before_newline others).append ?_
  rwa [whole, Nat.zero_add, List.nil_append]

/-! ### Reading -/

variable {a : String}

theorem chars_append (tokens others : List Token) :
    chars (tokens ++ others) = chars tokens ++ chars others := List.flatMap_append ..

theorem chars_shift (n : Nat) (tokens : List Token) :
    chars (tokens.map (Token.shift n)) = chars tokens := List.flatMap_map ..

theorem toList_lines (a b : String) :
    (a ++ "\n" ++ b).toList = a.toList ++ '\n' :: b.toList := by simp

theorem bytes_toList (a : String) : bytes a.toList = a.utf8ByteSize := by
  rw [bytes, String.ofList_toList]

/-- Behind a text that is read, a newline and a second text are read as the second is, further
on. -/
theorem read_lines {tokens : List Token} (h : read a = .ok tokens) (b : String) :
    read (a ++ "\n" ++ b) = moved (a.utf8ByteSize + 1) (fun later =>
      tokens ++ newlineAt a.utf8ByteSize :: later.map (Token.shift (a.utf8ByteSize + 1)))
        (read b) := by
  obtain ⟨lexemes, lexed, rfl⟩ := lexed_of_read h
  have whole : chars lexemes = a.toList := by rw [lexed.concat, List.append_nil]
  rw [← bytes_toList]
  rcases exists_lexed b.toList with ⟨later, lexed'⟩ | ⟨later, c, rest, lexed', stuck⟩
  · have both := lexed.lines lexed'
    rw [← toList_lines] at both
    rw [read_of_lexed both, read_of_lexed lexed']
    rw [List.filter_append, List.filter_cons_of_pos rfl, List.filter_map]
    rfl
  · have both := lexed.lines lexed'
    rw [← toList_lines] at both
    have place : bytes (chars (lexemes ++
        newlineAt (bytes a.toList) :: later.map (Token.shift (bytes a.toList + 1)))) =
          bytes (chars later) + (bytes a.toList + 1) := by
      rw [chars_append, chars_cons, chars_shift, whole, bytes_append, bytes_append]
      have one : bytes (newlineAt (bytes a.toList)).text.toList = 1 := bytes_toList "\n"
      omega
    rw [read_of_stuck both stuck, read_of_stuck lexed' stuck, place, moved, Diagnostic.shift_at,
      Span.shift, Nat.add_right_comm _ c.utf8Size]

/-- A text that is not read is not read with more behind it. -/
theorem read_first_line {d : Diagnostic} (h : read a = .error d) (b : String) :
    read (a ++ "\n" ++ b) = .error d := by
  obtain ⟨lexemes, c, rest, lexed, stuck, rfl⟩ := stuck_of_read h
  have first := lexed.before_newline b.toList
  rw [← toList_lines] at first
  exact read_of_stuck first (stuck.before_newline (List.cons_ne_nil c rest) b.toList)

end QuadAsm.Token
