import QuadAsm.Proofs.Assembly.Slices
import QuadAsm.Proofs.Program.Calls
import QuadAsm.Proofs.Statement.Case

/-! Programs in any case.

A text with letters in the other case, within the words that are read in any case, is assembled to
the same program (`assemble_recased`): its statements say the same instructions at the same places.
Labels are read as they are spelled: a name points where it was declared last in this spelling
(`Assembly.label?_of_declared`), and the target of a jump is the word that the text says. So names
that differ in case alone are two labels (`case_insensitive`). -/
namespace QuadAsm

variable {source other name : String} {program : Program} {statements statements' : List Statement}
  {i : Instruction}

/-! ### What is recorded -/

/-- A statement asks for the same entry when it is recased. -/
theorem Statement.Recased.entry {s s' : Statement} {entry : Entry} (h : s.Recased s')
    (accepted : Entry.ofStatement s = .ok entry) : Entry.ofStatement s' = .ok entry := by
  cases h with
  | label => exact accepted
  | @instruction mnemonic mnemonic' texts texts' span letters operands =>
    cases read : Operation.read mnemonic texts with
    | error fault =>
      rw [Entry.ofStatement, Entry.ofTexts, read] at accepted
      cases accepted
    | ok operation =>
      rw [Entry.ofStatement, Entry.ofTexts, read] at accepted
      rw [Entry.ofStatement, Entry.ofTexts, Operation.read_recased letters operands read]
      exact accepted

theorem Assembly.ofItems_recased {b : Builder}
    (recased : List.Forall₂ Statement.Recased statements statements')
    (accepted : (ofItems b (statements.map .ok)).result = .ok program) :
    (ofItems b (statements'.map .ok)).result = .ok program := by
  induction recased generalizing b with
  | nil => exact accepted
  | @cons s s' statements statements' first _ ih =>
    rw [List.map_cons, ofItems] at accepted ⊢
    cases asked : Entry.ofStatement s with
    | error d =>
      simp only [Except.bind, asked] at accepted
      cases accepted
    | ok entry =>
      simp only [Except.bind, asked] at accepted
      simp only [Except.bind, first.entry asked]
      exact ih accepted

theorem assemble_recased (h : assemble source = .ok program) (recases : Recases source other) :
    assemble other = .ok program := by
  obtain ⟨tokens, statements, read, derives, _⟩ := derives_of_assemble h
  obtain ⟨d⟩ := derives.exists_derivation
  obtain ⟨others, read', e, recased⟩ := Cursor.exists_recased_statements read d recases
  rw [assemble_of_derives read d.derives] at h
  rw [assemble_of_derives read' e.derives]
  exact Assembly.ofItems_recased recased h

/-! ### Labels as they are spelled -/

theorem Statement.call_instruction? (s : Statement) :
    s.phrase.call.instruction? = s.instruction?.map Instruction.unplaced := by
  cases s with
  | label name span => rfl
  | instruction mnemonic texts span =>
    simp only [phrase, Phrase.call, Builder.Call.instruction?, instruction?, Entry.ofStatement,
      Entry.ofTexts]
    cases Operation.read mnemonic texts <;> rfl

/-- As many calls ask for an instruction as statements say one. -/
theorem length_filterMap_calls (statements : List Statement) :
    ((statements.map fun s => s.phrase.call).filterMap Builder.Call.instruction?).length =
      (statements.filterMap Statement.instruction?).length := by
  have same : (Builder.Call.instruction? ∘ fun s : Statement => s.phrase.call) =
      fun s => s.instruction?.map Instruction.unplaced := funext Statement.call_instruction?
  rw [List.filterMap_map, same, ← List.map_filterMap, List.length_map]

theorem mem_calls_iff : .label name ∈ statements.map (fun s => s.phrase.call) ↔
    ∃ span, .label name span ∈ statements := by
  rw [List.mem_map]
  constructor
  · intro ⟨s, member, said⟩
    cases s with
    | label declared span =>
      cases said
      exact ⟨span, member⟩
    | instruction => cases said
  · intro ⟨span, member⟩
    exact ⟨_, member, rfl⟩

namespace Assembly

/-- What statements record has the labels of the calls of their phrases. -/
theorem label?_of_ofItems (recorded : (ofItems {} (statements.map .ok)).result = .ok program)
    (name : String) : program.label? name =
      (({} : Builder).attemptAll (statements.map fun s => s.phrase.call)).program.label? name := by
  have nowhere : ({} : Builder).program = ({} : Builder).program.unplaced := by
    simp [Program.unplaced]
  have agreed := agrees statements nowhere
  rw [recorded] at agreed
  obtain ⟨b, called⟩ := agreed.ok_iff.mp ⟨program, rfl⟩
  rw [called] at agreed
  rw [Builder.attemptAll_of_callAll called, agreed.same_program]
  rfl

/-- A name points behind the instructions before it was declared last, in this spelling. -/
theorem label?_of_declared {before after : List Statement} {span : Span}
    (recorded : (ofItems {} (statements.map .ok)).result = .ok program)
    (split : statements = before ++ .label name span :: after)
    (last : ∀ later, .label name later ∉ after) :
    program.label? name = some (before.filterMap Statement.instruction?).length := by
  have absent : .label name ∉ after.map fun s => s.phrase.call := by
    rw [mem_calls_iff]
    exact fun ⟨later, member⟩ => last later member
  rw [label?_of_ofItems recorded, split, List.map_append, List.map_cons, ← length_filterMap_calls]
  exact (Builder.label?_attemptAll_declared absent {}).trans (congrArg some (Nat.zero_add _))

/-- A name that is not declared in this spelling points nowhere, and any other somewhere. -/
theorem exists_label_iff_declared
    (recorded : (ofItems {} (statements.map .ok)).result = .ok program) :
    (∃ index, program.label? name = some index) ↔ ∃ span, .label name span ∈ statements := by
  rw [← mem_calls_iff, ← Builder.exists_label_attemptAll_iff, label?_of_ofItems recorded]

/-- A jump is unresolved just when its target is not declared in this spelling. -/
theorem isUnresolved_iff_undeclared
    (recorded : (ofItems {} (statements.map .ok)).result = .ok program)
    (target : i.target? = some name) :
    program.isUnresolved i = true ↔ ∀ span, .label name span ∉ statements := by
  rw [Program.isUnresolved_iff]
  constructor
  · intro ⟨goal, same, nowhere⟩ span member
    obtain rfl : name = goal := Option.some.inj (target.symm.trans same)
    obtain ⟨index, found⟩ := (exists_label_iff_declared recorded).mpr ⟨span, member⟩
    rw [nowhere] at found
    cases found
  · intro undeclared
    refine ⟨name, target, Option.eq_none_iff_forall_ne_some.mpr fun index found => ?_⟩
    obtain ⟨span, member⟩ := (exists_label_iff_declared recorded).mp ⟨index, found⟩
    exact undeclared span member

end Assembly

/-- The target of a jump is the word that its statement says. -/
theorem Statement.target_of_instruction? {s : Statement} (said : s.instruction? = some i)
    (target : i.target? = some name) : ∃ mnemonic, s = .instruction mnemonic [name] i.span := by
  obtain ⟨mnemonic, texts, rfl, read⟩ := Statement.eq_of_instruction? said
  obtain ⟨operation, span⟩ := i
  cases operation with
  | jump condition goal =>
    obtain rfl : goal = name := Option.some.inj target
    obtain ⟨opcode, given, _, words, legal⟩ := Operation.read_eq_ok_iff.mp read
    cases legal
    obtain ⟨text, _, word, nothing, rfl⟩ := List.forall₂_cons_right_iff.mp words
    obtain ⟨rfl, _⟩ := Operand.read_eq_label_iff.mp (Operand.read_eq_ok_iff.mpr word)
    cases nothing
    exact ⟨mnemonic, rfl⟩
  | _ => cases target

/-- **Case does not matter where words are read in any case, and matters in labels.** When letters
of a text that is assembled are in the other case, within mnemonics, operands that are registers'
names and literals behind a mark, the text is assembled to the same program, its places and its labels
included. A name points behind the instructions before its last declaration in this very spelling,
and nowhere when it is not declared in it, so names that differ in case alone are two labels; and
the target of a jump is the word that the text says there. -/
theorem case_insensitive (h : assemble source = .ok program) :
    (∀ other, Recases source other → assemble other = .ok program) ∧
      ∃ (tokens : List Token) (statements : List Statement),
        Token.read source = .ok tokens ∧ Cursor.Derives tokens statements ∧
        program.instructions.toList = statements.filterMap Statement.instruction? ∧
        (∀ name, (∃ index, program.label? name = some index) ↔
          ∃ span, .label name span ∈ statements) ∧
        (∀ (before : List Statement) name span after,
          statements = before ++ .label name span :: after → (∀ later, .label name later ∉ after) →
            program.label? name = some (before.filterMap Statement.instruction?).length) ∧
        ∀ i ∈ program.instructions, ∀ name, i.target? = some name →
          (∃ mnemonic, .instruction mnemonic [name] i.span ∈ statements) ∧
            (program.isUnresolved i = true ↔ ∀ span, .label name span ∉ statements) := by
  refine ⟨fun other => assemble_recased h, ?_⟩
  obtain ⟨tokens, statements, read, derives, recorded⟩ := derives_of_assemble h
  have listed := Assembly.instructions_of_ofItems recorded
  refine ⟨tokens, statements, read, derives, listed, fun name => ?_, ?_, ?_⟩
  · exact Assembly.exists_label_iff_declared recorded
  · intro before name span after split last
    exact Assembly.label?_of_declared recorded split last
  · intro i member name target
    rw [← Array.mem_toList_iff, listed] at member
    obtain ⟨s, among, said⟩ := List.mem_filterMap.mp member
    obtain ⟨mnemonic, rfl⟩ := Statement.target_of_instruction? said target
    exact ⟨⟨mnemonic, among⟩, Assembly.isUnresolved_iff_undeclared recorded target⟩

/-- A mnemonic, a register and a literal in other cases, and two labels that differ in case alone. -/
theorem case_insensitive_labels :
    Recases "a: inc ax, 0xf\nA: jl a" "a: INC Ax, 0XF\nA: Jl a" ∧
      ∃ program, assemble "a: inc ax, 0xf\nA: jl a" = .ok program ∧
        assemble "a: INC Ax, 0XF\nA: Jl a" = .ok program ∧
          program.label? "a" = some 0 ∧ program.label? "A" = some 1 := by
  let inc : Token := ⟨.identifier, "inc", ⟨3, 6⟩⟩
  let ax : Token := ⟨.identifier, "ax", ⟨7, 9⟩⟩
  let comma : Token := ⟨.comma, ",", ⟨9, 10⟩⟩
  let fifteen : Token := ⟨.literal .hexadecimal, "0xf", ⟨11, 14⟩⟩
  let jl : Token := ⟨.identifier, "jl", ⟨18, 20⟩⟩
  let target : Token := ⟨.identifier, "a", ⟨21, 22⟩⟩
  let increment : Cursor.Part := .instruction inc [ax, comma, fifteen] [ax, fifteen]
  let jump : Cursor.Part := .instruction jl [target] [target]
  let parts : List Cursor.Part :=
    [.label ⟨.identifier, "a", ⟨0, 1⟩⟩ ⟨.colon, ":", ⟨1, 2⟩⟩, increment,
      .newline ⟨.newline, "\n", ⟨14, 15⟩⟩,
      .label ⟨.identifier, "A", ⟨15, 16⟩⟩ ⟨.colon, ":", ⟨16, 17⟩⟩, jump]
  have read : Token.read "a: inc ax, 0xf\nA: jl a" = .ok (parts.flatMap Cursor.Part.tokens) := by
    decide +kernel
  have fits : ∀ part ∈ parts, part.Fits := by
    have first : increment.Fits := ⟨rfl, .some (.more rfl rfl (.one rfl))⟩
    have second : jump.Fits := ⟨rfl, .some (.one rfl)⟩
    simp only [parts, List.forall_mem_cons]
    exact ⟨⟨rfl, rfl⟩, first, rfl, ⟨rfl, rfl⟩, second, List.forall_mem_nil _⟩
  have chain : parts.IsChain Cursor.Part.Precedes := by
    simp [parts, increment, jump, Cursor.Part.Precedes]
  have free (part : Cursor.Part) (member : part ∈ parts) {token : Token}
      (caseless : part.Caseless token) (byte : Nat) (lower : token.span.start ≤ byte)
      (upper : byte < token.span.stop) : CaseFree "a: inc ax, 0xf\nA: jl a" byte :=
    ⟨_, read, ⟨parts, fits, chain, rfl⟩, part, member, token, caseless, lower, upper⟩
  have mnemonic := free increment (by simp [parts]) .mnemonic
  have register := free increment (by simp [parts])
    (.register List.mem_cons_self .ax (Text.toLower_eq_self (by decide)))
  have literal := free increment (by simp [parts])
    (.literal (List.mem_cons_of_mem _ List.mem_cons_self) (.inr rfl))
  have mnemonic' := free jump (by simp [parts]) .mnemonic
  have recases : Recases "a: inc ax, 0xf\nA: jl a" "a: INC Ax, 0XF\nA: Jl a" :=
    .keep (.keep (.keep (.change (mnemonic _ (by decide) (by decide)) rfl
      (.change (mnemonic _ (by decide) (by decide)) rfl
      (.change (mnemonic _ (by decide) (by decide)) rfl (.keep
      (.change (register _ (by decide) (by decide)) rfl (.keep (.keep (.keep (.keep
      (.change (literal _ (by decide) (by decide)) rfl
      (.change (literal _ (by decide) (by decide)) rfl (.keep (.keep (.keep (.keep
      (.change (mnemonic' _ (by decide) (by decide)) rfl (.keep (.keep (.keep .nil)))))))))))))))))))))
  have labels : (assemble "a: inc ax, 0xf\nA: jl a").toOption.map
      (fun program => (program.label? "a", program.label? "A")) = some (some 0, some 1) := by
    decide +kernel
  refine ⟨recases, ?_⟩
  cases assembled : assemble "a: inc ax, 0xf\nA: jl a" with
  | error d =>
    rw [assembled] at labels
    cases labels
  | ok program =>
    rw [assembled] at labels
    obtain ⟨small, capital⟩ := Prod.mk.inj (Option.some.inj labels)
    exact ⟨program, rfl, (case_insensitive assembled).1 _ recases, small, capital⟩

end QuadAsm
