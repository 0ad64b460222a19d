import QuadAsm.Proofs.Instruction.Checks
import QuadAsm.Proofs.Program.Calls
import QuadAsm.Proofs.Program.Phrase

/-! Calls in words.

A builder can be called with the words of an instruction, or with its opcode and operands. Words are
taken just when they are those of a legal instruction, which is appended, and else they are refused
for their first fault (`Builder.words_exact`). The operands of a call can be written as words: a
label that could not be read again apart, the two calls do the same, also where they are refused,
and so do all calls of a list (`Builder.calls_written`). -/
namespace QuadAsm.Builder

variable {b : Builder} {mnemonic : String} {texts : List String} {calls : List Call}

/-! ### Words -/

/-- The builder with an instruction more, written nowhere. -/
def append (b : Builder) (operation : Operation) : Builder :=
  { b with program :=
    { b.program with instructions := b.program.instructions.push ⟨operation, .empty⟩ } }

theorem call_texts_eq_ok_iff {next : Builder} : b.call (.texts mnemonic texts) = .ok next ↔
    ∃ operation, Operation.read mnemonic texts = .ok operation ∧ next = b.append operation := by
  simp only [call, Call.entry, Entry.ofTexts]
  cases Operation.read mnemonic texts with
  | ok operation =>
    constructor
    · rintro ⟨⟩
      exact ⟨operation, rfl, rfl⟩
    · rintro ⟨_, ⟨⟩, rfl⟩
      rfl
  | error fault =>
    constructor
    · intro accepted
      cases accepted
    · rintro ⟨_, ⟨⟩, _⟩

theorem call_texts_eq_error_iff {d : Diagnostic} : b.call (.texts mnemonic texts) = .error d ↔
    ∃ fault, Operation.read mnemonic texts = .error fault ∧ d = fault.unplaced := by
  simp only [call, Call.entry, Entry.ofTexts, Diagnostic.locate_empty]
  cases Operation.read mnemonic texts with
  | ok operation =>
    constructor
    · intro refused
      cases refused
    · rintro ⟨_, ⟨⟩, _⟩
  | error fault =>
    constructor
    · rintro ⟨⟩
      exact ⟨fault, rfl, rfl⟩
    · rintro ⟨_, ⟨⟩, rfl⟩
      rfl

/-- **The words of legal instructions are taken, and no others.** A call in words succeeds just when
the mnemonic is an opcode's name in any case, the words are operands and the two make a legal
operation: this one is appended, and nothing else changes. Any other call is refused for the first
check that fails, with no place, and leaves the builder as it was. -/
theorem words_exact (b : Builder) (mnemonic : String) (texts : List String) :
    (∀ next, b.call (.texts mnemonic texts) = .ok next ↔ ∃ opcode given operation,
      mnemonic.toLower = opcode.name ∧ List.Forall₂ Operand.Word texts given ∧
        Operation.Legal opcode given operation ∧ next = b.append operation) ∧
      (∀ d, b.call (.texts mnemonic texts) = .error d ↔ ∃ kind fault,
        FirstFault mnemonic texts kind fault ∧ d = fault.unplaced ∧ d.kind = kind) ∧
      (∀ next, b.call (.texts mnemonic texts) = .ok next →
        b.attempt (.texts mnemonic texts) = next) ∧
      ∀ d, b.call (.texts mnemonic texts) = .error d → b.attempt (.texts mnemonic texts) = b := by
  refine ⟨fun next => ?_, fun d => ?_, fun next accepted => (attempt_of_call accepted).1,
    fun d refused => (attempt_of_refused refused).1⟩
  · rw [call_texts_eq_ok_iff]
    constructor
    · rintro ⟨operation, read, rfl⟩
      obtain ⟨opcode, given, named, words, legal⟩ := Operation.read_eq_ok_iff.mp read
      exact ⟨opcode, given, operation, named, words, legal, rfl⟩
    · rintro ⟨opcode, given, operation, named, words, legal, rfl⟩
      exact ⟨operation, Operation.read_eq_ok_iff.mpr ⟨opcode, given, named, words, legal⟩, rfl⟩
  · rw [call_texts_eq_error_iff]
    constructor
    · rintro ⟨fault, refused, rfl⟩
      obtain ⟨kind, first⟩ := Operation.read_eq_error_iff.mp refused
      exact ⟨kind, fault, first, rfl, first.kind_eq⟩
    · rintro ⟨kind, fault, first, rfl, _⟩
      exact ⟨fault, Operation.read_eq_error_iff.mpr ⟨kind, first⟩, rfl⟩

/-! ### Operands in words -/

/-- The call in words: an opcode by its name, each operand by its text. -/
def Call.written : Call → Call
  | operands opcode given => .texts opcode.name (given.map Operand.text)
  | other => other

/-- The labels among its operands can be written as operands. -/
def Call.Writable : Call → Prop
  | operands _ given => ∀ name, .label name ∈ given → IsTarget name
  | _ => True

/-- Operands are what their texts are read as. -/
theorem mapM_read_text {given : List Operand}
    (writable : ∀ name, .label name ∈ given → IsTarget name) :
    (given.map Operand.text).mapM Operand.read = .ok given := by
  have each (operand : Operand) (member : operand ∈ given) :
      Operand.read operand.text = .ok operand := by
    cases operand with
    | datum d => exact Operand.read_datum d
    | label name => exact Operand.read_eq_label_iff.mpr ⟨rfl, writable name member⟩
  rw [List.mapM_map, mapM_eq_pure (f := Operand.read ∘ Operand.text) (g := id) each, List.map_id]
  rfl

/-- A call and the call in words ask for one entry, or are refused alike. -/
theorem Call.entry_written {c : Call} (writable : c.Writable) : c.written.entry = c.entry := by
  cases c with
  | operands opcode given =>
    have read : Operation.read opcode.name (given.map Operand.text) =
        Operation.ofOperands opcode given := by
      rw [Operation.read, Opcode.read_name, mapM_read_text writable]
      rfl
    simp only [written, entry, Entry.ofTexts, Entry.ofOperands, read, Diagnostic.locate_empty]
  | _ => rfl

theorem call_written {c : Call} (writable : c.Writable) (b : Builder) :
    b.call c.written = b.call c := by
  rw [call, call, Call.entry_written writable]

theorem attempt_written {c : Call} (writable : c.Writable) (b : Builder) :
    b.attempt c.written = b.attempt c := by
  rw [attempt, attempt, Call.entry_written writable]

theorem attemptAll_written (writable : ∀ c ∈ calls, c.Writable) (b : Builder) :
    b.attemptAll (calls.map Call.written) = b.attemptAll calls := by
  induction calls generalizing b with
  | nil => rfl
  | cons c calls ih =>
    obtain ⟨here, later⟩ := List.forall_mem_cons.mp writable
    show (b.attempt c.written).attemptAll (calls.map Call.written) = (b.attempt c).attemptAll calls
    rw [attempt_written here, ih later]

theorem callAll_written (writable : ∀ c ∈ calls, c.Writable) (b : Builder) :
    b.callAll (calls.map Call.written) = b.callAll calls := by
  induction calls generalizing b with
  | nil => rfl
  | cons c calls ih =>
    obtain ⟨here, later⟩ := List.forall_mem_cons.mp writable
    have asked := Call.entry_written here
    rw [List.map_cons]
    cases entry : c.entry with
    | ok entry =>
      rw [callAll_cons_ok entry, callAll_cons_ok (asked.trans entry), ih later]
    | error d => rw [callAll_cons_error entry, callAll_cons_error (asked.trans entry)]

/-- An opcode with operands is appended, or refused with the builder as it was. -/
theorem call_operands_cases (b : Builder) (opcode : Opcode) (given : List Operand) :
    (∃ operation, b.call (.operands opcode given) = .ok (b.append operation) ∧
        b.attempt (.operands opcode given) = b.append operation) ∨
      ∃ d, b.call (.operands opcode given) = .error d ∧ b.attempt (.operands opcode given) = b := by
  simp only [call, attempt, Call.entry, Entry.ofOperands]
  cases Operation.ofOperands opcode given with
  | ok operation => exact .inl ⟨operation, rfl, rfl⟩
  | error fault => exact .inr ⟨_, rfl, rfl⟩

/-- **Operands and their words are one.** An opcode with operands and its name with their texts,
labels being names that no register has, come to the same whatever the builder: one operation is
appended by both calls, or both are refused, with one fault and one place, and the builder is as it
was. So calls made in words instead leave the same builder, or are refused alike. -/
theorem calls_written (b : Builder) :
    (∀ opcode given, (∀ name, .label name ∈ given → IsTarget name) →
      b.call (.texts opcode.name (given.map Operand.text)) = b.call (.operands opcode given) ∧
        b.attempt (.texts opcode.name (given.map Operand.text)) =
          b.attempt (.operands opcode given) ∧
        ((∃ operation, b.call (.operands opcode given) = .ok (b.append operation) ∧
            b.attempt (.operands opcode given) = b.append operation) ∨
          ∃ d, b.call (.operands opcode given) = .error d ∧
            b.attempt (.operands opcode given) = b)) ∧
      ∀ calls : List Call, (∀ c ∈ calls, c.Writable) →
        b.callAll (calls.map Call.written) = b.callAll calls ∧
          b.attemptAll (calls.map Call.written) = b.attemptAll calls := by
  constructor
  · intro opcode given writable
    have writable : (Call.operands opcode given).Writable := writable
    exact ⟨call_written writable b, attempt_written writable b, call_operands_cases b opcode given⟩
  · intro calls writable
    exact ⟨callAll_written writable b, attemptAll_written writable b⟩

/-- A literal at the limit, and a jump to a label that is declared. -/
theorem calls_written_loop :
    IsTarget "top" ∧
      ({} : Builder).call (.texts "je" ["top"]) =
        ({} : Builder).call (.operands (.jump .equal) [.label "top"]) ∧
      ({} : Builder).callAll
          [.label "top", .texts "mov" ["ax", "-9223372036854775808"], .texts "je" ["top"]] =
        ({} : Builder).callAll
          [.label "top", .mov .ax (.literal Int64.minValue), .jump .equal "top"] := by
  have target : IsTarget "top" := by
    refine ⟨by decide, Option.eq_none_iff_forall_ne_some.mpr fun r named => ?_⟩
    have same := Register.ofName?_eq_some_iff.mp named
    rw [Text.toLower_eq_self (by decide)] at same
    revert same
    cases r <;> decide
  have least : toString Int64.minValue = "-9223372036854775808" := by decide
  obtain ⟨one, many⟩ := calls_written {}
  refine ⟨target, (one (.jump .equal) [.label "top"] ?_).1, ?_⟩
  · intro name member
    cases List.mem_singleton.mp member
    exact target
  · have writable : ∀ c ∈ [Call.label "top", .mov .ax (.literal Int64.minValue), .jump .equal "top"],
        c.Writable := by
      simp [Call.Writable, Call.mov, Call.jump, Operand.register, Operand.literal, target]
    have same := (many _ writable).1
    rw [← least]
    exact same
end QuadAsm.Builder
