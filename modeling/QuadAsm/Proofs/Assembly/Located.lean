import QuadAsm.Assembly.Run
import QuadAsm.Proofs.Assembly.Lines
import QuadAsm.Proofs.Instruction.Refused
import QuadAsm.Proofs.Machine.Unresolved
import QuadAsm.Proofs.Statement.Places

/-! Whatever is wrong with a text is wrong somewhere in it.

A text that is not assembled is refused for a character, for a token, or for the words of a
statement, and each of these has its place; an instruction that comes of a text has the place of
its statement, and a run is refused for the instruction it has come to. None of these places is
the empty span, which would be nowhere. So a text that is run and refused is refused for a piece
of one of its lines, or for the newline where an operand was expected (`runSource_located`). -/
namespace QuadAsm

variable {source text : String} {program : Program} {span : Span} {d : Diagnostic}

/-! ### Places -/

/-- The diagnostic is about this piece of the source, which is not empty and stands between
characters: the newline where an operand was expected, or else what has no newline in it. -/
structure Diagnostic.Located (source : String) (span : Span) (text : String) (d : Diagnostic) :
    Prop where
  place : d.span? = some span
  nonempty : span.start < span.stop
  inside : span.stop ≤ source.utf8ByteSize
  start_valid : String.Pos.Raw.IsValid source ⟨span.start⟩
  stop_valid : String.Pos.Raw.IsValid source ⟨span.stop⟩
  covers : span.Covers source text
  newline : d.fault = .operandExpected .newline → text = "\n"
  line : d.fault ≠ .operandExpected .newline → '\n' ∉ text.toList

theorem Span.Covers.located (covers : span.Covers source text) (nonempty : text ≠ "")
    (place : d.span? = some span) (newline : d.fault = .operandExpected .newline → text = "\n")
    (line : d.fault ≠ .operandExpected .newline → '\n' ∉ text.toList) :
    d.Located source span text := by
  have lies := covers.lies nonempty
  exact ⟨place, lies.nonempty, lies.stop_le, lies.start_valid, lies.stop_valid, covers, newline, line⟩

theorem Span.OnLine.located (h : span.OnLine source) (place : d.span? = some span)
    (other : d.fault ≠ .operandExpected .newline) : ∃ text, d.Located source span text := by
  obtain ⟨text, covers, nonempty, solid⟩ := h
  exact ⟨text, covers.located nonempty place (fun same => absurd same other) fun _ => solid⟩

theorem Span.OnLine.ne_empty (h : span.OnLine source) : span ≠ .empty := by
  obtain ⟨text, covers, nonempty, _⟩ := h
  exact Span.ne_empty (Nat.zero_lt_of_lt (covers.lies nonempty).nonempty)

/-- What is located at a piece of a line is located there. -/
theorem Span.OnLine.locate (h : span.OnLine source) (fault : Fault) :
    fault.unplaced.locate span = fault.at span := Diagnostic.locate_unplaced fault h.ne_empty

/-- A token that is to blame is where the text is wrong. -/
theorem Cursor.Blames.located {tokens : List Token} {token : Token} (h : Blames d token)
    (read : Token.read source = .ok tokens) (member : token ∈ tokens) :
    ∃ text, d.Located source token.span text := by
  by_cases newline : token.kind = .newline
  · have expected := h.newline.mpr newline
    have covers := Token.newline_of_read read member newline
    exact ⟨"\n", covers.located (by decide) h.span (fun _ => rfl) fun other => absurd expected other⟩
  · have other : d.fault ≠ .operandExpected .newline := fun same => newline (h.newline.mp same)
    exact (Token.onLine_of_read read member newline).located h.span other

/-! ### Texts that are not assembled -/

/-- A refusal of items is that of one of them. -/
theorem Assembly.refused_of_ofItems {b : Builder} {items : List (Except Diagnostic Statement)}
    (h : (ofItems b items).result = .error d) :
    ∃ item ∈ items, item.bind Entry.ofStatement = .error d := by
  induction items generalizing b with
  | nil => cases h
  | cons item items ih =>
    rw [ofItems] at h
    split at h
    · obtain ⟨other, member, refused⟩ := ih h
      exact ⟨other, List.mem_cons_of_mem _ member, refused⟩
    · rename_i e refused
      cases h
      exact ⟨item, List.mem_cons_self .., refused⟩

/-- The kinds of fault that a text can have. -/
def Fault.Kind.ofText : List Fault.Kind := lexer :: parser :: ofWords

/-- What a statement is refused for is a fault of its words, located at the statement. -/
theorem Entry.locate_of_refused {statement : Statement} (h : ofStatement statement = .error d) :
    ∃ fault : Fault, d = fault.unplaced.locate statement.span ∧
      fault.kind ∈ Fault.Kind.ofWords := by
  cases statement with
  | label name span => cases h
  | instruction mnemonic texts span =>
    simp only [ofStatement, ofTexts] at h
    cases read : Operation.read mnemonic texts with
    | ok operation =>
      rw [read] at h
      cases h
    | error fault =>
      rw [read] at h
      cases h
      exact ⟨fault, rfl, Operation.refuses_read mnemonic texts fault read⟩

theorem Entry.refused_of_statement {statement : Statement} (line : statement.span.OnLine source)
    (h : ofStatement statement = .error d) :
    (∃ span text, d.Located source span text) ∧ d.kind ∈ Fault.Kind.ofText := by
  obtain ⟨fault, rfl, kind⟩ := locate_of_refused h
  have other : fault ≠ .operandExpected .newline := by
    rintro rfl
    simp [Fault.kind, Fault.Kind.ofWords] at kind
  rw [line.locate fault]
  refine ⟨⟨statement.span, line.located rfl other⟩, ?_⟩
  exact List.mem_cons_of_mem _ (List.mem_cons_of_mem _ kind)

theorem refused_of_assemble (h : assemble source = .error d) :
    (∃ span text, d.Located source span text) ∧ d.kind ∈ Fault.Kind.ofText := by
  cases read : Token.read source with
  | error e =>
    rw [assemble_of_unread read] at h
    cases h
    obtain ⟨c, span, rfl, line⟩ := Token.onLine_of_unread read
    exact ⟨⟨span, line.located rfl (by simp [Fault.at])⟩, List.mem_cons_self ..⟩
  | ok tokens =>
    rw [assemble_of_read read] at h
    obtain ⟨item, member, refused⟩ := Assembly.refused_of_ofItems h
    cases item with
    | ok statement => exact Entry.refused_of_statement (Cursor.onLine_of_mem read member) refused
    | error e =>
      cases refused
      obtain ⟨token, among, blames⟩ := Cursor.blames_of_mem member
      refine ⟨⟨token.span, blames.located read among⟩, ?_⟩
      rw [blames.kind]
      exact List.mem_cons_of_mem _ (List.mem_cons_self ..)

/-! ### Programs of a text -/

/-- An instruction stands where its statement does. -/
theorem Entry.span_of_statement {statement : Statement} {i : Instruction}
    (h : ofStatement statement = .ok (.instruction i)) : i.span = statement.span := by
  cases statement with
  | label name span => cases h
  | instruction mnemonic texts span =>
    simp only [ofStatement, ofTexts] at h
    split at h
    · cases h
      rfl
    · cases h

/-- An entry adds the instruction that it is, if it is one. -/
theorem Builder.mem_record {b : Builder} {entry : Entry} {i : Instruction}
    (member : i ∈ (b.record entry).program.instructions) :
    i ∈ b.program.instructions ∨ entry = .instruction i := by
  cases entry with
  | label name => exact .inl member
  | instruction j =>
    rcases Array.mem_push.mp member with before | same
    · exact .inl before
    · exact .inr (by rw [same])

/-- The instructions of a text stand on a line each. -/
theorem onLine_of_assemble (h : assemble source = .ok program) {i : Instruction}
    (member : i ∈ program.instructions) : i.span.OnLine source := by
  cases read : Token.read source with
  | error e =>
    rw [assemble_of_unread read] at h
    cases h
  | ok tokens =>
    rw [assemble_of_read read] at h
    apply Assembly.ofItems_induct (motive := fun p => ∀ i ∈ p.instructions, i.span.OnLine source)
      h (by simp) _ i member
    intro b statement entry among asked kept i member
    rcases Builder.mem_record member with before | rfl
    · exact kept i before
    · rw [Entry.span_of_statement asked]
      exact Cursor.onLine_of_mem read among

/-- A step is refused for the instruction that the machine has come to. -/
theorem Machine.located_of_refused {m : Machine} {limit : Option Nat}
    (assembled : assemble source = .ok program) (h : m.step program limit = .error d) :
    ∃ i text, program.get? m.pointer = some i ∧ d.Located source i.span text ∧
      d.kind ∈ [.unresolvedLabel, .stepLimit] := by
  cases Stepped.of_eq h with
  | @limited i bound fetched _ =>
    have line := onLine_of_assemble assembled (Program.mem_of_get? fetched)
    have other : ((Fault.stepLimit bound).at i.span).fault ≠ .operandExpected .newline := by
      simp [Fault.at]
    obtain ⟨text, located⟩ := line.located rfl other
    exact ⟨i, text, fetched, located, List.mem_cons_of_mem _ (List.mem_cons_self ..)⟩
  | @unresolved i condition label fetched _ _ _ _ =>
    have line := onLine_of_assemble assembled (Program.mem_of_get? fetched)
    rw [line.locate]
    have other : ((Fault.unresolvedLabel label).at i.span).fault ≠ .operandExpected .newline := by
      simp [Fault.at]
    obtain ⟨text, located⟩ := line.located rfl other
    exact ⟨i, text, fetched, located, List.mem_cons_self ..⟩

/-- What is refused when a text is run is refused by its assembly or by a step of its program. -/
theorem refused_of_runSource {limit : Option Nat} (h : runSource source limit = some (.error d)) :
    assemble source = .error d ∨ ∃ program ending, assemble source = .ok program ∧
      Machine.start.run program limit = some ending ∧ ending.result = .error d ∧
        ending.machine.step program limit = .error d := by
  unfold runSource at h
  cases assembled : assemble source with
  | error e =>
    rw [assembled] at h
    cases h
    exact .inl rfl
  | ok program =>
    rw [assembled] at h
    obtain ⟨ending, carried, result⟩ := Option.map_eq_some_iff.mp h
    obtain ⟨_, _, final⟩ := Machine.ends_of_runFor carried
    rw [result] at final
    cases final with
    | refused refused => exact .inr ⟨program, ending, rfl, carried, result, refused⟩

/-- **Whatever is wrong is located.** A text that is run, under any limit or none, and refused is
refused for a piece of it: this is not empty, starts and stops between characters, and has no
newline in it, unless it is that one newline, where an operand was expected. Either the text is not
assembled, for one of five kinds of fault; or its program is run, and refused for one of the two
others, at the instruction that the machine has come to. -/
theorem runSource_located {limit : Option Nat} (h : runSource source limit = some (.error d)) :
    ∃ span text, d.Located source span text ∧
      ((assemble source = .error d ∧ d.kind ∈
          [.lexer, .parser, .unknownRegister, .malformedOperand, .malformedInstruction]) ∨
        ∃ program ending i, assemble source = .ok program ∧
          Machine.start.run program limit = some ending ∧ ending.result = .error d ∧
          d.kind ∈ [.unresolvedLabel, .stepLimit] ∧
          program.get? ending.machine.pointer = some i ∧ span = i.span) := by
  rcases refused_of_runSource h with
    refused | ⟨program, ending, assembled, carried, result, refused⟩
  · obtain ⟨⟨span, text, located⟩, kind⟩ := refused_of_assemble refused
    exact ⟨span, text, located, .inl ⟨refused, kind⟩⟩
  · obtain ⟨i, text, fetched, located, kind⟩ := Machine.located_of_refused assembled refused
    exact ⟨i.span, text, located,
      .inr ⟨program, ending, i, assembled, carried, result, kind, fetched, rfl⟩⟩

/-- A jump on the second line, to a label that is not declared. -/
theorem runSource_located_jump :
    let source := "inc ax\njmp up"
    let d := (Fault.unresolvedLabel "up").at ⟨7, 13⟩
    runSource source none = some (.error d) ∧ ∃ text, d.Located source ⟨7, 13⟩ text := by
  intro source d
  have refused : runSource source none = some (.error d) := by decide +kernel
  obtain ⟨span, text, located, _⟩ := runSource_located refused
  cases located.place
  exact ⟨refused, text, located⟩

end QuadAsm
