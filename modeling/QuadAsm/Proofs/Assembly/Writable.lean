import QuadAsm.Proofs.Assembly.Lines
import QuadAsm.Proofs.Instruction.Printed

/-! Programs that can be written down.

A program can be written as a text where its labels are spelled as names and its jumps go to
names that no register has. A builder takes any text for either, but a program that was assembled
can be written again (`writable_of_assemble`): its labels are words of the text, and its targets
have been read as labels. -/
namespace QuadAsm

/-- The labels declared are names, and so are the targets of jumps, with no register among these. -/
structure Program.Writable (program : Program) : Prop where
  labels : ∀ name index, program.label? name = some index → Text.isName name.toList = true
  operations : ∀ i ∈ program.instructions, i.operation.Writable

def Entry.Writable : Entry → Prop
  | label name => Text.isName name.toList = true
  | instruction i => i.operation.Writable

theorem Program.writable_empty : Writable {} := by
  refine ⟨fun name index h => ?_, by simp⟩
  simp [label?] at h

theorem Program.Writable.record {b : Builder} (writable : b.program.Writable) {entry : Entry}
    (added : entry.Writable) : (b.record entry).program.Writable := by
  cases entry with
  | label declared =>
    refine ⟨fun name index h => ?_, writable.operations⟩
    rw [Builder.label?_record_label] at h
    split at h
    · rename_i same
      subst same
      exact added
    · exact writable.labels name index h
  | instruction i =>
    refine ⟨writable.labels, fun other member => ?_⟩
    rcases Array.mem_push.mp member with member | rfl
    · exact writable.operations other member
    · exact added

/-- What a statement says can be written where its label, if it is one, is a name. -/
theorem Entry.writable_of_statement {statement : Statement} {entry : Entry}
    (named : ∀ name span, statement = .label name span → Text.isName name.toList = true)
    (h : ofStatement statement = .ok entry) : entry.Writable := by
  cases statement with
  | label name span =>
    cases h
    exact named name span rfl
  | instruction mnemonic operands span =>
    simp only [ofStatement, ofTexts] at h
    split at h
    · rename_i operation read
      cases h
      exact Operation.writable_of_read read
    · cases h

theorem Assembly.writable_of_ofItems {b : Builder} {statements : List Statement}
    {program : Program} (writable : b.program.Writable)
    (named : ∀ name span, .label name span ∈ statements → Text.isName name.toList = true)
    (h : (ofItems b (statements.map .ok)).result = .ok program) : program.Writable := by
  refine ofItems_induct h writable fun b statement entry member asked kept => ?_
  have member : statement ∈ statements := by simpa using member
  apply kept.record
  apply Entry.writable_of_statement _ asked
  intro name span same
  exact named name span (same ▸ member)

/-- The name of a label is a word among the tokens. -/
theorem Cursor.Derives.named {tokens : List Token} {statements : List Statement}
    (h : Derives tokens statements) {name : String} {span : Span}
    (member : .label name span ∈ statements) :
    ∃ token ∈ tokens, token.kind = .identifier ∧ token.text = name := by
  induction h with
  | nil => cases member
  | newline _ _ ih =>
    obtain ⟨token, found, named⟩ := ih member
    exact ⟨token, List.mem_cons_of_mem _ found, named⟩
  | @label word colon tokens statements named _ _ ih =>
    rcases List.mem_cons.mp member with same | later
    · cases same
      exact ⟨word, List.mem_cons_self, named, rfl⟩
    · obtain ⟨token, found, named⟩ := ih later
      exact ⟨token, List.mem_cons_of_mem _ (List.mem_cons_of_mem _ found), named⟩
  | instruction _ _ _ _ ih =>
    rcases List.mem_cons.mp member with same | later
    · cases same
    · obtain ⟨token, found, named⟩ := ih later
      exact ⟨token, List.mem_cons_of_mem _ (List.mem_append_right _ found), named⟩

/-- A token that is an identifier is a name. -/
theorem Token.isName_of_read {source : String} {tokens : List Token}
    (h : read source = .ok tokens) {token : Token} (member : token ∈ tokens)
    (named : token.kind = .identifier) : Text.isName token.text.toList = true := by
  have spelled := spelled_of_read h member
  rw [named] at spelled
  exact Text.isName_iff_spelled.mpr spelled

/-- An assembled program can be written again. -/
theorem Program.writable_of_assemble {source : String} {program : Program}
    (h : assemble source = .ok program) : program.Writable := by
  obtain ⟨tokens, statements, read, derives, recorded⟩ := derives_of_assemble h
  refine Assembly.writable_of_ofItems writable_empty (fun name span member => ?_) recorded
  obtain ⟨token, found, named, rfl⟩ := derives.named member
  exact Token.isName_of_read read found named

end QuadAsm
