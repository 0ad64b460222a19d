import QuadAsm.Proofs.Assembly.Located
import QuadAsm.Proofs.Statement.Stops

/-! The first fault of a text.

What reads a text line by line has done with a line at its newline: a fault that it has is settled
there, and without one the others are read as they are alone, further on (`Linewise`). So the fault
that it reports stands on the first line that has any (`Linewise.first_line`). Both the scanner and
the assembler read in this way, the assembler on texts of which all can be read; a character that
starts no token comes before all of its own faults (`first_bad_line`). -/
namespace QuadAsm

variable {source a b above line below : String} {d : Diagnostic} {span : Span} {place : Nat}

/-! ### The line at a place -/

/-- The byte at this place is on the line that stands between the lines above and below; a newline
is on the line that it ends. -/
structure LineAt (source : String) (place : Nat) (above line below : String) : Prop where
  whole : source = above ++ line ++ below
  starts : above = "" ∨ ∃ front, above = front ++ "\n"
  ends : (∃ front, line = front ++ "\n" ∧ '\n' ∉ front.toList) ∨ '\n' ∉ line.toList ∧ below = ""
  low : above.utf8ByteSize ≤ place
  high : place < (above ++ line).utf8ByteSize

theorem exists_line_start (cs : List Char) : ∃ above front, cs = above ++ front ∧
    '\n' ∉ front ∧ (above = [] ∨ ∃ before, above = before ++ ['\n']) := by
  induction cs with
  | nil => exact ⟨[], [], rfl, nofun, .inl rfl⟩
  | cons c cs ih =>
    obtain ⟨above, front, rfl, solid, rfl | ⟨before, rfl⟩⟩ := ih
    · by_cases newline : c = '\n'
      · exact ⟨[c], front, rfl, solid, .inr ⟨[], by rw [newline]; rfl⟩⟩
      · exact ⟨[], c :: front, rfl, by simp [solid, Ne.symm newline], .inl rfl⟩
    · exact ⟨c :: (before ++ ['\n']), front, rfl, solid, .inr ⟨c :: before, rfl⟩⟩

theorem exists_line_end (cs : List Char) : ∃ back below, cs = back ++ below ∧
    ((∃ before, back = before ++ ['\n'] ∧ '\n' ∉ before) ∨ '\n' ∉ back ∧ below = []) := by
  by_cases newline : '\n' ∈ cs
  · obtain ⟨before, below, rfl, solid⟩ := List.eq_append_cons_of_mem newline
    exact ⟨before ++ ['\n'], below, by simp, .inl ⟨before, rfl, solid⟩⟩
  · exact ⟨cs, [], by simp, .inr ⟨newline, rfl⟩⟩

/-- What a span covers starts on some line. -/
theorem Span.Covers.exists_lineAt {text : String} (covers : span.Covers source text)
    (nonempty : span.start < span.stop) :
    ∃ above line below, LineAt source span.start above line below := by
  obtain ⟨before, after, rfl, rfl⟩ := covers
  obtain ⟨above, front, split, solid, starts⟩ := exists_line_start before.toList
  obtain ⟨back, below, split', ends⟩ := exists_line_end (text ++ after).toList
  have same : before = String.ofList above ++ String.ofList front := by
    rw [← String.toList_inj, split]
    simp
  have same' : text ++ after = String.ofList back ++ String.ofList below := by
    rw [← String.toList_inj, split']
    simp
  have more : String.ofList back ≠ "" := by
    intro nothing
    obtain rfl : back = [] := by simpa using congrArg String.toList nothing
    obtain ⟨_, none, _⟩ | ⟨_, rfl⟩ := ends
    · simp at none
    · obtain ⟨rfl, rfl⟩ : text = "" ∧ after = "" := by simpa using same'
      simp at nonempty
  refine ⟨String.ofList above, String.ofList front ++ String.ofList back, String.ofList below,
    ?_, ?_, ?_, ?_, ?_⟩
  · rw [String.append_assoc, same', same]
    simp only [String.append_assoc]
  · rcases starts with rfl | ⟨before, rfl⟩
    · exact .inl rfl
    · exact .inr ⟨String.ofList before, by simp⟩
  · rcases ends with ⟨before, rfl, free⟩ | ⟨free, rfl⟩
    · exact .inl ⟨String.ofList front ++ String.ofList before, by simp [String.append_assoc],
        by simp [solid, free]⟩
    · exact .inr ⟨by simp [solid, free], rfl⟩
  · rw [same, String.utf8ByteSize_append]
    exact Nat.le_add_right _ _
  · have positive := Nat.pos_of_ne_zero (mt String.utf8ByteSize_eq_zero_iff.mp more)
    simp only [same, String.utf8ByteSize_append]
    omega

/-! ### Reading line by line -/

theorem utf8ByteSize_line (a : String) : (a ++ "\n").utf8ByteSize = a.utf8ByteSize + 1 :=
  String.utf8ByteSize_append

/-- `f` reads a text line by line, of texts that are `Fit`: a fault before a newline is the same
fault whatever fit text follows, and where there is none, what follows is read as it is alone,
further on. Each fault has a place in the text. -/
structure Linewise {α : Type} (Fit : String → Prop) (f : String → Except Diagnostic α) : Prop where
  empty : ∃ x, f "" = .ok x
  fit_empty : Fit ""
  fit_lines : ∀ {a b}, Fit (a ++ "\n" ++ b) ↔ Fit a ∧ Fit b
  settled : ∀ {a e}, Fit a → f a = .error e →
    ∃ d, ∀ b, Fit b → f (a ++ "\n" ++ b) = .error d
  behind : ∀ {a x}, f a = .ok x →
    ∃ g : α → α, ∀ b, f (a ++ "\n" ++ b) = moved (a.utf8ByteSize + 1) g (f b)
  located : ∀ {a d}, f a = .error d → ∃ span, d.span? = some span ∧ span.start < a.utf8ByteSize

namespace Linewise

variable {α : Type} {Fit : String → Prop} {f : String → Except Diagnostic α}

/-- Where what stands before a newline has a fault, all is refused as it is with this newline. -/
theorem error_line {e : Diagnostic} (h : Linewise Fit f) (fit : Fit (a ++ "\n" ++ b))
    (refused : f (a ++ "\n" ++ b) = .error d) (first : f a = .error e) :
    f (a ++ "\n") = .error d := by
  obtain ⟨fits, fits'⟩ := h.fit_lines.mp fit
  obtain ⟨d', same⟩ := h.settled fits first
  cases refused.symm.trans (same b fits')
  have alone := same "" h.fit_empty
  rwa [String.append_empty] at alone

/-- A fault that stands behind a newline is none of what stands before. -/
theorem ok_before (h : Linewise Fit f) (fit : Fit (a ++ "\n" ++ b))
    (refused : f (a ++ "\n" ++ b) = .error d) (placed : d.span? = some span)
    (behind : a.utf8ByteSize + 1 ≤ span.start) : ∃ x, f (a ++ "\n") = .ok x := by
  cases first : f a with
  | error e =>
    -- Then the fault is that of the text before too, but this text is not so long.
    obtain ⟨place, located, inside⟩ := h.located (h.error_line fit refused first)
    cases placed.symm.trans located
    rw [utf8ByteSize_line] at inside
    exact absurd behind (Nat.not_le.mpr inside)
  | ok x =>
    obtain ⟨g, further⟩ := h.behind first
    obtain ⟨y, nothing⟩ := h.empty
    have more := further ""
    rw [nothing, String.append_empty] at more
    exact ⟨g y, more⟩

/-- A fault that stands before a newline, or at it, is one of what stands there. -/
theorem error_within (h : Linewise Fit f) (fit : Fit (a ++ "\n" ++ b))
    (refused : f (a ++ "\n" ++ b) = .error d) (placed : d.span? = some span)
    (within : span.start < a.utf8ByteSize + 1) : f (a ++ "\n") = .error d := by
  cases first : f a with
  | error e => exact h.error_line fit refused first
  | ok x =>
    -- Then the fault is further on by all that stands before it.
    obtain ⟨g, further⟩ := h.behind first
    have whole := further b
    rw [refused] at whole
    cases second : f b with
    | ok y =>
      rw [second] at whole
      cases whole
    | error e =>
      rw [second] at whole
      cases whole
      obtain ⟨place, located, _⟩ := h.located second
      simp only [Diagnostic.shift, located, Option.map_some, Option.some.injEq] at placed
      subst placed
      exact absurd within (Nat.not_lt.mpr (Nat.le_add_left ..))

/-- The lines above a fault have none, and the lines down to it have this one. -/
theorem first_line (h : Linewise Fit f) (fit : Fit source) (refused : f source = .error d)
    (placed : d.span? = some span) (here : LineAt source span.start above line below) :
    (∃ x, f above = .ok x) ∧ f (above ++ line) = .error d := by
  obtain ⟨rfl, starts, ends, low, high⟩ := here
  constructor
  · rcases starts with rfl | ⟨front, rfl⟩
    · exact h.empty
    · rw [String.append_assoc] at fit refused
      rw [utf8ByteSize_line] at low
      exact h.ok_before fit refused placed low
  · rcases ends with ⟨front, rfl, _⟩ | ⟨_, rfl⟩
    · rw [← String.append_assoc] at fit refused high ⊢
      rw [utf8ByteSize_line] at high
      exact h.error_within fit refused placed high
    · rwa [String.append_empty] at refused

end Linewise

/-! ### The scanner and the assembler -/

theorem Token.read_empty : read "" = .ok [] := by simp [read, scan, Except.map]

theorem Token.linewise_read : Linewise (fun _ => True) Token.read where
  empty := ⟨[], read_empty⟩
  fit_empty := trivial
  fit_lines := by simp
  settled _ refused := ⟨_, fun b _ => read_first_line refused b⟩
  behind read := ⟨_, read_lines read⟩
  located refused := by
    obtain ⟨c, span, rfl, text, covers, nonempty, _⟩ := onLine_of_unread refused
    have lies := covers.lies nonempty
    exact ⟨span, rfl, Nat.lt_of_lt_of_le lies.nonempty lies.stop_le⟩

/-- All of the text is tokens. -/
def Readable (source : String) : Prop := ∃ tokens, Token.read source = .ok tokens

theorem readable_lines : Readable (a ++ "\n" ++ b) ↔ Readable a ∧ Readable b := by
  cases first : Token.read a with
  | error d => simp [Readable, first, Token.read_first_line first b]
  | ok tokens =>
    rw [Readable, Token.read_lines first b]
    cases second : Token.read b <;> simp [Readable, first, second, moved]

theorem assemble_settled {e : Diagnostic} (fit : Readable a) (refused : assemble a = .error e) :
    ∃ d, ∀ b, Readable b → assemble (a ++ "\n" ++ b) = .error d := by
  obtain ⟨tokens, read⟩ := fit
  rw [assemble_of_read read] at refused
  have lines {d : Diagnostic} {b : String} (fit : Readable b)
      (settled : ∀ others, (Assembly.ofItems {} (Cursor.ofTokens
        (tokens ++ Token.newlineAt a.utf8ByteSize :: others)).remaining).result = .error d) :
      assemble (a ++ "\n" ++ b) = .error d := by
    obtain ⟨others, read'⟩ := fit
    have whole := Token.read_lines read b
    rw [read'] at whole
    rw [assemble_of_read whole, settled]
  by_cases fault : ∃ d, .error d ∈ (Cursor.ofTokens tokens).remaining
  · obtain ⟨d, member⟩ := fault
    have newline : (Token.newlineAt a.utf8ByteSize).kind = .newline := rfl
    obtain ⟨e, statements, same⟩ := Cursor.exists_refused_line member newline
    have last : .error e ∈ statements.map Except.ok ++ [.error e] := by simp
    obtain ⟨d, refused⟩ := Assembly.error_of_mem last {}
    refine ⟨d, fun b fit => lines fit fun others => ?_⟩
    rw [Cursor.ofTokens, ← List.singleton_append, ← List.append_assoc, same, refused]
  · have alone : ∀ item ∈ (Cursor.ofTokens tokens).remaining,
        ∃ statement, item = .ok statement := by
      rintro (d | statement) member
      · exact absurd ⟨d, member⟩ fault
      · exact ⟨statement, rfl⟩
    obtain ⟨statements, derives⟩ := Cursor.exists_derives alone
    refine ⟨e, fun b fit => lines fit fun others => ?_⟩
    rw [Cursor.ofTokens, derives.remaining] at refused
    rw [Cursor.ofTokens, derives.remaining_lines rfl]
    exact Assembly.ofItems_append_error refused _

theorem linewise_assemble : Linewise Readable assemble where
  empty := ⟨_, assemble_of_derives Token.read_empty .nil⟩
  fit_empty := ⟨[], Token.read_empty⟩
  fit_lines := readable_lines
  settled := assemble_settled
  behind assembled := ⟨_, assemble_behind assembled⟩
  located refused := by
    obtain ⟨⟨span, text, located⟩, _⟩ := refused_of_assemble refused
    exact ⟨span, located.place, Nat.lt_of_lt_of_le located.nonempty located.inside⟩

/-! ### The first of all faults -/

/-- A text is refused for a character just when it cannot be read. -/
theorem unread_iff :
    Token.read source = .error d ↔ assemble source = .error d ∧ d.kind = .lexer := by
  constructor
  · intro unread
    obtain ⟨_, _, rfl, _⟩ := Token.onLine_of_unread unread
    exact ⟨assemble_of_unread unread, rfl⟩
  · rintro ⟨refused, kind⟩
    cases read : Token.read source with
    | error e =>
      cases (assemble_of_unread read).symm.trans refused
      rfl
    | ok tokens =>
      rw [assemble_of_read read] at refused
      obtain ⟨item, member, refused⟩ := Assembly.refused_of_ofItems refused
      cases item with
      | error e =>
        cases refused
        obtain ⟨token, _, blames⟩ := Cursor.blames_of_mem member
        cases kind.symm.trans blames.kind
      | ok statement =>
        obtain ⟨fault, rfl, words⟩ := Entry.locate_of_refused refused
        rw [Diagnostic.kind, Diagnostic.fault_locate] at kind
        have character : fault.kind = .lexer := kind
        simp [character, Fault.Kind.ofWords] at words

/-- Wherever a text cannot be read, all of it is refused for a character. -/
theorem unread_of_line (unread : ¬ (Readable a ∧ Readable b)) :
    ∃ d, assemble (a ++ "\n" ++ b) = .error d ∧ d.kind = .lexer := by
  rw [← readable_lines] at unread
  cases read : Token.read (a ++ "\n" ++ b) with
  | ok tokens => exact absurd ⟨tokens, read⟩ unread
  | error d => exact ⟨d, unread_iff.mp read⟩

/-- **The first bad line is the one reported.** A text that is refused for anything but a character
has a line on which the place of the fault starts; the lines above it are assembled, and the lines
down to it, it included, are refused for the same. A text is refused for a character just when it
cannot be read, whatever else is wrong with it and wherever the character stands: what stands
before this character is read, no token starts at it, and it is on the first line that is not
read. -/
theorem first_bad_line (source : String) :
    (∀ d, assemble source = .error d → d.kind ≠ .lexer →
      ∃ span, d.span? = some span ∧
        (∃ above line below, LineAt source span.start above line below) ∧
        ∀ above line below, LineAt source span.start above line below →
          (∃ program, assemble above = .ok program) ∧ assemble (above ++ line) = .error d) ∧
      (∀ d, assemble source = .error d ∧ d.kind = .lexer ↔ Token.read source = .error d) ∧
      (∀ a b, source = a ++ "\n" ++ b → ¬ (Readable a ∧ Readable b) →
        ∃ d, assemble source = .error d ∧ d.kind = .lexer) ∧
      ∀ d, assemble source = .error d → d.kind = .lexer →
        ∃ lexemes c rest span, d = (Fault.unknownCharacter c).at span ∧
          span.start = Token.bytes (Token.chars lexemes) ∧
          Token.Lexed 0 source.toList lexemes (c :: rest) ∧ Token.Stuck (c :: rest) ∧
          (∃ above line below, LineAt source span.start above line below) ∧
          ∀ above line below, LineAt source span.start above line below →
            Readable above ∧ Token.read (above ++ line) = .error d := by
  refine ⟨fun d refused other => ?_, fun d => unread_iff.symm, ?_, fun d refused kind => ?_⟩
  · have fit : Readable source := by
      cases read : Token.read source with
      | ok tokens => exact ⟨tokens, read⟩
      | error e =>
        obtain ⟨refused', kind⟩ := unread_iff.mp read
        cases refused.symm.trans refused'
        exact absurd kind other
    obtain ⟨⟨span, text, located⟩, _⟩ := refused_of_assemble refused
    exact ⟨span, located.place, located.covers.exists_lineAt located.nonempty,
      fun above line below here => linewise_assemble.first_line fit refused located.place here⟩
  · rintro a b rfl unread
    exact unread_of_line unread
  · have unread := unread_iff.mpr ⟨refused, kind⟩
    obtain ⟨lexemes, c, rest, lexed, stuck, rfl⟩ := Token.stuck_of_read unread
    obtain ⟨_, span, same, text, covers, nonempty, _⟩ := Token.onLine_of_unread unread
    cases same
    have lies := covers.lies nonempty
    exact ⟨lexemes, c, rest, _, rfl, rfl, lexed, stuck, covers.exists_lineAt lies.nonempty,
      fun above line below here => Token.linewise_read.first_line trivial unread rfl here⟩

/-- An instruction without its operands, between a line that is right and one that is not. -/
theorem first_bad_line_second :
    let source := "jmp a\nmov\n,"
    let d := (Fault.operandCount .mov 0).at ⟨6, 9⟩
    assemble source = .error d ∧ d.kind ≠ .lexer ∧
      LineAt source 6 "jmp a\n" "mov\n" "," ∧
      (∃ program, assemble "jmp a\n" = .ok program) ∧
      assemble ("jmp a\n" ++ "mov\n") = .error d := by
  intro source d
  have refused : assemble source = .error d := by decide +kernel
  have other : d.kind ≠ .lexer := by decide
  have here : LineAt source 6 "jmp a\n" "mov\n" "," := by
    exact ⟨rfl, .inr ⟨"jmp a", rfl⟩, .inl ⟨"mov", rfl, by decide⟩, by decide, by decide⟩
  obtain ⟨span, place, _, lines⟩ := (first_bad_line source).1 d refused other
  cases place
  exact ⟨refused, other, here, lines _ _ _ here⟩

end QuadAsm
