import QuadAsm.Proofs.Assembly.Located
import QuadAsm.Proofs.Statement.Slices

/-! The place of an instruction is where it is written.

The instructions of a text are those that its statements say, in order
(`instructions_of_ofItems`), and each has the place of its statement. So what an instruction covers
is assembled to this instruction and to nothing else, and between two of them a line ends
(`spans_faithful`). -/
namespace QuadAsm

variable {source : String} {program : Program} {statements : List Statement} {i : Instruction}

/-! ### The instructions of some statements -/

/-- The instruction that an entry adds. -/
def Entry.instruction? : Entry → Option Instruction
  | label _ => none
  | instruction i => some i

/-- The instruction that a statement says. -/
def Statement.instruction? (statement : Statement) : Option Instruction :=
  (Entry.ofStatement statement).toOption.bind Entry.instruction?

theorem Builder.instructions_record (b : Builder) (entry : Entry) :
    (b.record entry).program.instructions.toList =
      b.program.instructions.toList ++ entry.instruction?.toList := by
  cases entry with
  | label name => exact (List.append_nil _).symm
  | instruction i => exact Array.toList_push

/-- What is recorded adds the instructions that the statements say. -/
theorem Assembly.instructions_of_ofItems {b : Builder}
    (h : (ofItems b (statements.map .ok)).result = .ok program) :
    program.instructions.toList =
      b.program.instructions.toList ++ statements.filterMap Statement.instruction? := by
  induction statements generalizing b with
  | nil =>
    cases h
    exact (List.append_nil _).symm
  | cons statement statements ih =>
    rw [List.map_cons, ofItems] at h
    split at h
    · rename_i entry accepted
      have asked : Entry.ofStatement statement = .ok entry := accepted
      have said : statement.instruction? = entry.instruction? := by
        rw [Statement.instruction?, asked]
        rfl
      rw [ih h, Builder.instructions_record, List.append_assoc, List.filterMap_cons, said]
      cases entry <;> rfl
    · cases h

/-- An instruction is written where its statement is, and its words are read as its operation. -/
theorem Statement.eq_of_instruction? {statement : Statement} (h : statement.instruction? = some i) :
    ∃ name texts, statement = .instruction name texts i.span ∧
      Operation.read name texts = .ok i.operation := by
  cases statement with
  | label name span => cases h
  | instruction name texts span =>
    cases read : Operation.read name texts with
    | error fault =>
      simp only [instruction?, Entry.ofStatement, Entry.ofTexts, read] at h
      cases h
    | ok operation =>
      simp only [instruction?, Entry.ofStatement, Entry.ofTexts, read] at h
      cases h
      exact ⟨name, texts, rfl, read⟩

/-- The statements of a text say the instructions of its program, each at its index. -/
theorem statements_of_assemble (h : assemble source = .ok program) :
    ∃ tokens statements, Token.read source = .ok tokens ∧ Cursor.Derives tokens statements ∧
      program.instructions.toList = statements.filterMap Statement.instruction? := by
  obtain ⟨tokens, statements, read, derives, recorded⟩ := derives_of_assemble h
  exact ⟨tokens, statements, read, derives, Assembly.instructions_of_ofItems recorded⟩

/-! ### Slices of a text -/

/-- A text that is one statement, an instruction, is assembled to this instruction. -/
theorem assemble_of_alone {text : String} {tokens : List Token} {name : String}
    {texts : List String} {span : Span} {operation : Operation}
    (read : Token.read text = .ok tokens)
    (alone : (Cursor.ofTokens tokens).remaining = [.ok (.instruction name texts span)])
    (words : Operation.read name texts = .ok operation) :
    assemble text = .ok { instructions := #[⟨operation, span⟩] } := by
  have asked : Entry.ofStatement (.instruction name texts span) =
      .ok (.instruction ⟨operation, span⟩) := by
    rw [Entry.ofStatement, Entry.ofTexts, words]
  rw [assemble_of_read read, alone, Assembly.ofItems, Except.bind, asked]
  rfl

/-- What an instruction of a text covers is assembled to the instruction alone. -/
theorem exists_slice_of_assemble (h : assemble source = .ok program)
    (member : i ∈ program.instructions) : ∃ text, i.span.Covers source text ∧
      assemble text =
        .ok { instructions := #[⟨i.operation, ⟨0, i.span.stop - i.span.start⟩⟩] } := by
  obtain ⟨tokens, statements, read, derives, listed⟩ := statements_of_assemble h
  rw [← Array.mem_toList_iff, listed] at member
  obtain ⟨statement, among, said⟩ := List.mem_filterMap.mp member
  obtain ⟨name, texts, rfl, words⟩ := Statement.eq_of_instruction? said
  have among : .ok (.instruction name texts i.span) ∈ (Cursor.ofTokens tokens).remaining := by
    rw [Cursor.ofTokens, derives.remaining]
    exact List.mem_map_of_mem among
  obtain ⟨text, near, covers, alone, same⟩ := Cursor.exists_alone read among
  exact ⟨text, covers, assemble_of_alone alone same words⟩

/-- The source has a newline behind the first instruction and before the second. -/
def LineBetween (source : String) (i j : Instruction) : Prop :=
  ∃ place, Span.Covers ⟨place, place + 1⟩ source "\n" ∧ i.span.stop ≤ place ∧ place < j.span.start

/-- A newline among the tokens of a text is a newline of the text. -/
theorem Cursor.Apart.line {tokens : List Token} {a b : Statement} {j : Instruction}
    (apart : Apart tokens a b) (read : Token.read source = .ok tokens)
    (first : a.span = i.span) (second : b.span = j.span) : LineBetween source i j := by
  obtain ⟨newline, member, kind, before, behind⟩ := apart
  have covers := Token.newline_of_read read member kind
  have stop : newline.span.stop = newline.span.start + 1 := by
    obtain ⟨_, _, _, place⟩ := covers
    rw [place]
    rfl
  have whole : newline.span = ⟨newline.span.start, newline.span.start + 1⟩ := by rw [← stop]
  rw [first] at before
  rw [second, stop] at behind
  exact ⟨newline.span.start, whole ▸ covers, before, behind⟩

theorem pairwise_of_assemble (h : assemble source = .ok program) :
    program.instructions.toList.Pairwise (LineBetween source) := by
  obtain ⟨tokens, statements, read, derives, listed⟩ := statements_of_assemble h
  rw [listed]
  refine (derives.apart (Token.pairwise_of_read read)).filterMap _ fun a b later i said j also => ?_
  obtain ⟨name, texts, rfl, _⟩ := Statement.eq_of_instruction? said
  obtain ⟨_, _, rfl, _⟩ := Statement.eq_of_instruction? also
  exact (later ⟨name, texts, i.span, rfl⟩).line read rfl rfl

/-- **The place of an instruction is faithful.** What an instruction of a text covers is not empty,
and is assembled, without a label, to one instruction: the same operation, from the start of the
piece to its end. Of two instructions the one with the lesser index stops before the other starts,
and a newline of the text stands between the two. -/
theorem spans_faithful (h : assemble source = .ok program) :
    (∀ i ∈ program.instructions, i.span.start < i.span.stop ∧
        ∃ text, i.span.Covers source text ∧ assemble text =
          .ok { instructions := #[⟨i.operation, ⟨0, i.span.stop - i.span.start⟩⟩], labels := ∅ }) ∧
      ∀ k l i j, k < l → program.get? k = some i → program.get? l = some j →
        ∃ place, Span.Covers ⟨place, place + 1⟩ source "\n" ∧
          i.span.stop ≤ place ∧ place < j.span.start := by
  constructor
  · intro i member
    obtain ⟨_, covers, nonempty, _⟩ := onLine_of_assemble h member
    exact ⟨(covers.lies nonempty).nonempty, exists_slice_of_assemble h member⟩
  · intro k l i j before first second
    obtain ⟨low, rfl⟩ := Array.getElem?_eq_some_iff.mp first
    obtain ⟨high, rfl⟩ := Array.getElem?_eq_some_iff.mp second
    exact List.pairwise_iff_getElem.mp (pairwise_of_assemble h) k l low high before

/-- Behind a remark with a character of two bytes, and with a blank line and a second remark. -/
theorem spans_faithful_loop :
    let source := "; é\ntop: inc ax\n\n  cmp ax, 0x3 ; done\njl top"
    ∃ program, assemble source = .ok program ∧
      program.get? 1 = some ⟨.cmp (.register .ax) (.literal 3), ⟨20, 31⟩⟩ ∧
      (∃ text, Span.Covers ⟨20, 31⟩ source text ∧ assemble text =
        .ok { instructions := #[⟨.cmp (.register .ax) (.literal 3), ⟨0, 11⟩⟩], labels := ∅ }) ∧
      ∃ place, Span.Covers ⟨place, place + 1⟩ source "\n" ∧ 16 ≤ place ∧ place < 20 := by
  have listed : (assemble "; é\ntop: inc ax\n\n  cmp ax, 0x3 ; done\njl top").toOption.map
        Program.instructions =
      some #[⟨.inc .ax (.literal 1), ⟨10, 16⟩⟩, ⟨.cmp (.register .ax) (.literal 3), ⟨20, 31⟩⟩,
        ⟨.jump .less "top", ⟨39, 45⟩⟩] := by
    decide +kernel
  intro source
  change (assemble source).toOption.map _ = _ at listed
  cases assembled : assemble source with
  | error d =>
    rw [assembled] at listed
    cases listed
  | ok program =>
    rw [assembled] at listed
    obtain ⟨alone, apart⟩ := spans_faithful assembled
    have listed := Option.some.inj listed
    have first : program.get? 0 = some ⟨.inc .ax (.literal 1), ⟨10, 16⟩⟩ := by
      rw [Program.get?, listed]
      rfl
    have second : program.get? 1 = some ⟨.cmp (.register .ax) (.literal 3), ⟨20, 31⟩⟩ := by
      rw [Program.get?, listed]
      rfl
    have slice := (alone _ (Program.mem_of_get? second)).2
    exact ⟨program, rfl, second, slice, apart 0 1 _ _ Nat.one_pos first second⟩

end QuadAsm
