import QuadAsm.Proofs.Program.Phrase
import QuadAsm.Proofs.Statement.Lines
import QuadAsm.Proofs.Token.Lines

/-! Assembling line by line.

A text, a newline and a second text assemble to the programs of the two, one behind the other
(`assemble_lines`): tokens and statements stop at a newline, and an entry is recorded relative to
what was recorded before, so the second program is what it is alone, but further on. -/
namespace QuadAsm

variable {n : Nat} {program : Program}

namespace Program

/-- One program behind another, in a text so many bytes further on. Where both declare a label,
the second declaration stands. -/
def followedBy (program : Program) (n : Nat) (next : Program) : Program where
  instructions := program.instructions ++ next.instructions.map (Instruction.shift n)
  labels := program.labels ∪ next.labels.map fun _ index => index + program.size

@[simp] theorem size_followedBy (program : Program) (n : Nat) (next : Program) :
    (program.followedBy n next).size = program.size + next.size := by
  simp [followedBy, size]

theorem label?_followedBy (program : Program) (n : Nat) (next : Program) (name : String) :
    (program.followedBy n next).label? name =
      ((next.label? name).map (· + program.size)).or (program.label? name) := by
  simp [followedBy, label?, Std.ExtTreeMap.getElem?_union, Std.ExtTreeMap.getElem?_map]

/-- Programs are equal when their instructions are and their tables say the same. -/
theorem ext_label? {a b : Program} (instructions : a.instructions = b.instructions)
    (labels : ∀ name, a.label? name = b.label? name) : a = b := by
  obtain ⟨_, _⟩ := a
  obtain ⟨_, _⟩ := b
  cases instructions
  exact congrArg _ (Std.ExtTreeMap.ext_getElem? labels)

theorem followedBy_empty (program : Program) (n : Nat) : program.followedBy n {} = program := by
  refine ext_label? (by simp [followedBy]) fun name => ?_
  rw [label?_followedBy]
  simp [label?]

end Program

/-- What is recorded behind a program is recorded behind what follows it. -/
theorem Builder.record_followedBy {b placed : Builder}
    (same : placed.program = program.followedBy n b.program) (entry : Entry) :
    (placed.record (entry.shift n)).program =
      program.followedBy n (b.record entry).program := by
  cases entry with
  | label declared =>
    have instructions : placed.program.instructions =
        (program.followedBy n b.program).instructions := congrArg _ same
    refine Program.ext_label? instructions fun name => ?_
    rw [Entry.shift, label?_record_label, Program.label?_followedBy, label?_record_label, same,
      Program.size_followedBy, Program.label?_followedBy]
    by_cases here : declared = name
    · simp [here, Nat.add_comm]
    · simp [here]
  | instruction i =>
    refine Program.ext_label? ?_ fun name => ?_
    · simp [record, Entry.shift, same, Program.followedBy]
    · rw [Entry.shift, label?_record_instruction, same, Program.label?_followedBy,
        Program.label?_followedBy, label?_record_instruction]

namespace Assembly

/-! ### Statements behind others -/

/-- Statements that are recorded are recorded before any that follow. -/
theorem ofItems_append {b : Builder} {items : List (Except Diagnostic Statement)}
    (h : (ofItems b items).result = .ok program) (others : List (Except Diagnostic Statement)) :
    ∃ middle : Builder, middle.program = program ∧
      ofItems b (items ++ others) = ofItems middle others := by
  induction items generalizing b with
  | nil =>
    cases h
    exact ⟨b, rfl, rfl⟩
  | cons item items ih =>
    rw [ofItems] at h
    split at h
    · rename_i entry accepted
      obtain ⟨middle, same, rest⟩ := ih h
      refine ⟨middle, same, ?_⟩
      rw [List.cons_append, ofItems, accepted]
      exact rest
    · cases h

/-- What is refused is refused with more behind it. -/
theorem ofItems_append_error {b : Builder} {d : Diagnostic}
    {items : List (Except Diagnostic Statement)}
    (h : (ofItems b items).result = .error d) (others : List (Except Diagnostic Statement)) :
    (ofItems b (items ++ others)).result = .error d := by
  induction items generalizing b with
  | nil => cases h
  | cons item items ih =>
    rw [ofItems] at h
    rw [List.cons_append, ofItems]
    split at h
    · exact ih h
    · exact h

/-- Where all is recorded, what comes first is. -/
theorem ofItems_of_append {b : Builder} {items others : List (Except Diagnostic Statement)}
    (h : (ofItems b (items ++ others)).result = .ok program) :
    ∃ first, (ofItems b items).result = .ok first := by
  induction items generalizing b with
  | nil => exact ⟨b.program, rfl⟩
  | cons item items ih =>
    rw [List.cons_append, ofItems] at h
    split at h
    · rename_i entry accepted
      obtain ⟨first, recorded⟩ := ih h
      exact ⟨first, by rwa [ofItems, accepted]⟩
    · cases h

/-- Where all is recorded there is no fault among the statements. -/
theorem statements_of_ofItems {b : Builder} {items : List (Except Diagnostic Statement)}
    (h : (ofItems b items).result = .ok program) :
    ∀ item ∈ items, ∃ statement, item = .ok statement := by
  induction items generalizing b with
  | nil => exact nofun
  | cons item items ih =>
    rw [ofItems] at h
    split at h
    · rename_i entry accepted
      refine List.forall_mem_cons.mpr ⟨?_, ih h⟩
      cases item with
      | ok statement => exact ⟨statement, rfl⟩
      | error d => cases accepted
    · cases h

/-- Items with a fault among them are refused, be it for this one. -/
theorem error_of_mem {items : List (Except Diagnostic Statement)} {d : Diagnostic}
    (h : .error d ∈ items) (b : Builder) : ∃ e, (ofItems b items).result = .error e := by
  cases result : (ofItems b items).result with
  | error e => exact ⟨e, rfl⟩
  | ok program =>
    obtain ⟨_, ⟨⟩⟩ := statements_of_ofItems result _ h

/-- What a program has, and what the entries of these statements keep, it has with them. -/
theorem ofItems_induct {motive : Program → Prop} {b : Builder}
    {items : List (Except Diagnostic Statement)} (h : (ofItems b items).result = .ok program)
    (before : motive b.program)
    (record : ∀ (b : Builder) statement entry, .ok statement ∈ items →
      Entry.ofStatement statement = .ok entry → motive b.program →
        motive (b.record entry).program) : motive program := by
  induction items generalizing b with
  | nil =>
    cases h
    exact before
  | cons item items ih =>
    rw [ofItems] at h
    split at h
    · rename_i entry accepted
      cases item with
      | error d => cases accepted
      | ok statement =>
        have kept := record b statement entry (List.mem_cons_self ..) accepted before
        apply ih h kept
        intro b other entry member
        exact record b other entry (List.mem_cons_of_mem _ member)
    · cases h

/-- Statements further on, recorded behind a program, make what follows it. -/
theorem ofItems_followedBy {b placed : Builder} {items : List (Except Diagnostic Statement)}
    (same : placed.program = program.followedBy n b.program)
    (written : ∀ statement, .ok statement ∈ items → 0 < statement.span.stop) :
    (ofItems placed (items.map (moved n (Statement.shift n)))).result =
      moved n (program.followedBy n) (ofItems b items).result := by
  induction items generalizing b placed with
  | nil => exact congrArg Except.ok same
  | cons item items ih =>
    have further : (moved n (Statement.shift n) item).bind Entry.ofStatement =
        moved n (Entry.shift n) (item.bind Entry.ofStatement) := by
      cases item with
      | ok statement => exact Entry.ofStatement_shift (written statement (List.mem_cons_self ..))
      | error d => rfl
    rw [List.map_cons, ofItems, ofItems, further]
    cases item.bind Entry.ofStatement with
    | ok entry =>
      exact ih (Builder.record_followedBy same entry)
        fun statement member => written statement (List.mem_cons_of_mem _ member)
    | error d => rfl

end Assembly

/-! ### Texts -/

variable {a b : String}

theorem assemble_of_read {source : String} {tokens : List Token}
    (h : Token.read source = .ok tokens) :
    assemble source = (Assembly.ofItems {} (Cursor.ofTokens tokens).remaining).result := by
  rw [assemble, Assembly.ofSource, h, ← Assembly.ofCursor_eq_ofItems]

theorem assemble_of_unread {source : String} {d : Diagnostic}
    (h : Token.read source = .error d) : assemble source = .error d := by
  rw [assemble, Assembly.ofSource, h]

/-- A text that is assembled is read, and derived from its tokens. -/
theorem derives_of_assemble {source : String} (h : assemble source = .ok program) :
    ∃ tokens statements, Token.read source = .ok tokens ∧ Cursor.Derives tokens statements ∧
      (Assembly.ofItems {} (statements.map .ok)).result = .ok program := by
  cases read : Token.read source with
  | error d =>
    rw [assemble_of_unread read] at h
    cases h
  | ok tokens =>
    rw [assemble_of_read read] at h
    obtain ⟨statements, derives⟩ :=
      Cursor.exists_derives (Assembly.statements_of_ofItems h)
    refine ⟨tokens, statements, rfl, derives, ?_⟩
    rwa [Cursor.ofTokens, derives.remaining] at h

theorem assemble_of_derives {source : String} {tokens : List Token} {statements : List Statement}
    (h : Token.read source = .ok tokens) (derives : Cursor.Derives tokens statements) :
    assemble source = (Assembly.ofItems {} (statements.map .ok)).result := by
  rw [assemble_of_read h, Cursor.ofTokens, derives.remaining]

/-- Every token of a text ends behind its start. -/
theorem Token.stop_pos_of_read {source : String} {tokens : List Token}
    (h : read source = .ok tokens) : ∀ token ∈ tokens, 0 < token.span.stop := by
  obtain ⟨lexemes, lexed, rfl⟩ := lexed_of_read h
  intro token member
  obtain ⟨nonempty, before, after, _, span⟩ := lexed.covers (List.mem_filter.mp member).1
  have positive : 0 < token.text.utf8ByteSize :=
    Nat.pos_of_ne_zero fun zero => nonempty (String.utf8ByteSize_eq_zero_iff.mp zero)
  rw [span]
  exact Nat.add_pos_right _ positive

/-- Behind a text that is assembled, a newline and a second text make what the second makes,
behind the program of the first. -/
theorem assemble_behind (h : assemble a = .ok program) (b : String) :
    assemble (a ++ "\n" ++ b) = moved (a.utf8ByteSize + 1)
      (program.followedBy (a.utf8ByteSize + 1)) (assemble b) := by
  obtain ⟨tokens, statements, read, derives, recorded⟩ := derives_of_assemble h
  have lines := Token.read_lines read b
  cases read' : Token.read b with
  | error d =>
    rw [read'] at lines
    rw [assemble_of_unread read', assemble_of_unread lines]
    rfl
  | ok others =>
    rw [read'] at lines
    obtain ⟨middle, same, behind⟩ := Assembly.ofItems_append recorded
      ((Cursor.ofTokens others).remaining.map (moved (a.utf8ByteSize + 1) (Statement.shift _)))
    rw [assemble_of_read lines, assemble_of_read read',
      Cursor.remaining_ofTokens_lines derives rfl, behind]
    refine Assembly.ofItems_followedBy (by rw [same, Program.followedBy_empty]) fun _ => ?_
    exact Cursor.stop_pos_of_mem (Token.stop_pos_of_read read')

/-- Where a text is assembled, so is what stands before a newline in it. -/
theorem assemble_first (h : assemble (a ++ "\n" ++ b) = .ok program) :
    ∃ first, assemble a = .ok first := by
  obtain ⟨tokens, statements, whole, derives, recorded⟩ := derives_of_assemble h
  cases read : Token.read a with
  | error d =>
    rw [Token.read_first_line read b] at whole
    cases whole
  | ok first =>
    rw [Token.read_lines read b] at whole
    cases read' : Token.read b with
    | error d =>
      rw [read'] at whole
      cases whole
    | ok others =>
      rw [read'] at whole
      cases whole
      obtain ⟨before, behind, derived, _, rfl⟩ := derives.lines rfl
      rw [List.map_append] at recorded
      rw [assemble_of_derives read derived]
      exact Assembly.ofItems_of_append recorded

/-- **Assembly goes line by line.** Of a text that is assembled, a newline and a second text, all
of it makes what the second text makes, further on: its program behind the first, labels declared
again moved, or its diagnostic. Where the first text is not assembled, all of it is not. So all
is assembled just when both texts are. -/
theorem assemble_lines (a b : String) :
    (∀ program, assemble a = .ok program →
        (∀ next, assemble b = .ok next →
          assemble (a ++ "\n" ++ b) = .ok (program.followedBy (a.utf8ByteSize + 1) next)) ∧
          ∀ d, assemble b = .error d →
            assemble (a ++ "\n" ++ b) = .error (d.shift (a.utf8ByteSize + 1))) ∧
      (∀ d, assemble a = .error d → ∃ e, assemble (a ++ "\n" ++ b) = .error e) ∧
      ((∃ whole, assemble (a ++ "\n" ++ b) = .ok whole) ↔
        (∃ program, assemble a = .ok program) ∧ ∃ next, assemble b = .ok next) := by
  have behind (program : Program) (h : assemble a = .ok program) := assemble_behind h b
  refine ⟨fun program h => ⟨fun next h' => ?_, fun d h' => ?_⟩, fun d h => ?_, ?_, ?_⟩
  · rw [behind program h, h', moved]
  · rw [behind program h, h', moved]
  · cases whole : assemble (a ++ "\n" ++ b) with
    | error e => exact ⟨e, rfl⟩
    | ok program =>
      obtain ⟨first, assembled⟩ := assemble_first whole
      rw [h] at assembled
      cases assembled
  · rintro ⟨whole, h⟩
    obtain ⟨program, assembled⟩ := assemble_first h
    refine ⟨⟨program, assembled⟩, ?_⟩
    cases second : assemble b with
    | ok next => exact ⟨next, rfl⟩
    | error d =>
      rw [behind program assembled, second] at h
      cases h
  · rintro ⟨⟨program, h⟩, next, h'⟩
    exact ⟨_, by rw [behind program h, h', moved]⟩

end QuadAsm
