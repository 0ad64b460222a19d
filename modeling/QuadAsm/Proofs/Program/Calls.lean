import QuadAsm.Proofs.Program.Built

/-! What calls leave in a program.

A call declares a label, appends the instruction it asks for (`Call.instruction?`), or is refused
and leaves the builder as it is; which of these it is does not depend on the builder. So the
instructions of a program are those its calls ask for, in order, and a label points at how many
there were when it was declared last (`attemptAll_exact`). -/
namespace QuadAsm.Builder

/-- The instruction that a call asks for; `none` for a label, and for what no instruction is. -/
def Call.instruction? : Call → Option Instruction
  | label _ => none
  | emit i => some i
  | operands opcode given =>
    (Operation.ofOperands opcode given).toOption.map fun operation => ⟨operation, .empty⟩
  | texts mnemonic given =>
    (Operation.read mnemonic given).toOption.map fun operation => ⟨operation, .empty⟩

/-! ### One call -/

/-- A call is one of three: a label, an instruction, or refused. -/
theorem Call.entry_cases (c : Call) :
    (∃ name, c = .label name ∧ c.entry = .ok (.label name) ∧ c.instruction? = none) ∨
      (∃ i, c.instruction? = some i ∧ c.entry = .ok (.instruction i) ∧ ∀ name, c ≠ .label name) ∨
      ∃ d, c.entry = .error d ∧ c.instruction? = none ∧ ∀ name, c ≠ .label name := by
  cases c with
  | label name => exact .inl ⟨name, rfl, rfl, rfl⟩
  | emit i => exact .inr (.inl ⟨i, rfl, rfl, by simp⟩)
  | operands opcode given =>
    simp only [Call.entry, Entry.ofOperands, instruction?]
    cases Operation.ofOperands opcode given with
    | ok operation => exact .inr (.inl ⟨_, rfl, rfl, by simp⟩)
    | error fault => exact .inr (.inr ⟨_, rfl, rfl, by simp⟩)
  | texts mnemonic given =>
    simp only [Call.entry, Entry.ofTexts, instruction?]
    cases Operation.read mnemonic given with
    | ok operation => exact .inr (.inl ⟨_, rfl, rfl, by simp⟩)
    | error fault => exact .inr (.inr ⟨_, rfl, rfl, by simp⟩)

/-- A call that is not refused leaves what it returns, which a label or an instruction is for. -/
theorem attempt_of_call {b next : Builder} {c : Call} (h : b.call c = .ok next) :
    b.attempt c = next ∧ ((∃ name, c = .label name) ∨ ∃ i, c.instruction? = some i) := by
  unfold call at h
  unfold attempt
  obtain ⟨name, same, asked, _⟩ | ⟨i, wanted, asked, _⟩ | ⟨d, asked, _⟩ := c.entry_cases
  · rw [asked] at h ⊢
    cases h
    exact ⟨rfl, .inl ⟨name, same⟩⟩
  · rw [asked] at h ⊢
    cases h
    exact ⟨rfl, .inr ⟨i, wanted⟩⟩
  · rw [asked] at h
    cases h

/-- A call that is refused leaves the builder as it was. -/
theorem attempt_of_refused {b : Builder} {c : Call} {d : Diagnostic} (h : b.call c = .error d) :
    b.attempt c = b ∧ c.instruction? = none ∧ ∀ name, c ≠ .label name := by
  unfold call at h
  unfold attempt
  obtain ⟨name, _, asked, _⟩ | ⟨i, _, asked, _⟩ | ⟨d, asked, none, other⟩ := c.entry_cases
  · rw [asked] at h
    cases h
  · rw [asked] at h
    cases h
  · rw [asked]
    exact ⟨rfl, none, other⟩

theorem instructions_attempt (b : Builder) (c : Call) :
    (b.attempt c).program.instructions.toList =
      b.program.instructions.toList ++ c.instruction?.toList := by
  unfold attempt
  obtain ⟨name, _, asked, none⟩ | ⟨i, wanted, asked, _⟩ | ⟨d, asked, none, _⟩ := c.entry_cases
  · simp [asked, none, record]
  · simp [asked, wanted, record]
  · simp [asked, none]

theorem label?_attempt (b : Builder) (c : Call) (name : String) :
    (b.attempt c).program.label? name =
      if c = .label name then some b.program.size else b.program.label? name := by
  unfold attempt
  obtain ⟨declared, rfl, asked, _⟩ | ⟨i, _, asked, other⟩ | ⟨d, asked, _, other⟩ := c.entry_cases
  · simp only [asked, label?_record_label, Call.label.injEq]
  · simp only [asked, label?_record_instruction, other name, if_false]
  · simp only [asked, other name, if_false]

/-! ### Many calls -/

theorem attemptAll_append (b : Builder) (calls more : List Call) :
    b.attemptAll (calls ++ more) = (b.attemptAll calls).attemptAll more := List.foldl_append ..

/-- Calls append the instructions that they ask for, in order. -/
theorem instructions_attemptAll (b : Builder) (calls : List Call) :
    (b.attemptAll calls).program.instructions.toList =
      b.program.instructions.toList ++ calls.filterMap Call.instruction? := by
  induction calls generalizing b with
  | nil => simp [attemptAll]
  | cons c calls ih =>
    show ((b.attempt c).attemptAll calls).program.instructions.toList = _
    rw [ih, instructions_attempt, List.append_assoc, List.filterMap_cons]
    cases c.instruction? <;> rfl

theorem size_attemptAll (b : Builder) (calls : List Call) :
    (b.attemptAll calls).program.size =
      b.program.size + (calls.filterMap Call.instruction?).length := by
  have same := congrArg List.length (instructions_attemptAll b calls)
  simpa [Program.size] using same

/-- Calls that do not declare a name leave it where it points. -/
theorem label?_attemptAll_of_not_mem {name : String} {calls : List Call}
    (absent : .label name ∉ calls) (b : Builder) :
    (b.attemptAll calls).program.label? name = b.program.label? name := by
  induction calls generalizing b with
  | nil => rfl
  | cons c calls ih =>
    have other : c ≠ .label name := fun same => absent (same ▸ List.mem_cons_self)
    show ((b.attempt c).attemptAll calls).program.label? name = _
    rw [ih (fun later => absent (List.mem_cons_of_mem _ later)), label?_attempt, if_neg other]

/-- The last declaration of a name says where it points. -/
theorem label?_attemptAll_declared {name : String} {before after : List Call}
    (last : .label name ∉ after) (b : Builder) :
    (b.attemptAll (before ++ .label name :: after)).program.label? name =
      some (b.program.size + (before.filterMap Call.instruction?).length) := by
  rw [attemptAll_append]
  show (((b.attemptAll before).attempt (.label name)).attemptAll after).program.label? name = _
  rw [label?_attemptAll_of_not_mem last, label?_attempt, if_pos rfl, size_attemptAll]

/-- A call list that declares a name declares it a last time. -/
theorem exists_last_declaration {name : String} {calls : List Call} (declared : .label name ∈ calls) :
    ∃ before after, calls = before ++ .label name :: after ∧ .label name ∉ after := by
  induction calls with
  | nil => cases declared
  | cons c calls ih =>
    by_cases later : .label name ∈ calls
    · obtain ⟨before, after, rfl, last⟩ := ih later
      exact ⟨c :: before, after, rfl, last⟩
    · have first : c = .label name := by
        rcases List.mem_cons.mp declared with same | member
        · exact same.symm
        · exact absurd member later
      exact ⟨[], calls, by rw [first]; rfl, later⟩

/-- The names that point somewhere are those that are declared. -/
theorem exists_label_attemptAll_iff {name : String} {calls : List Call} :
    (∃ index, (({} : Builder).attemptAll calls).program.label? name = some index) ↔
      .label name ∈ calls := by
  constructor
  · intro ⟨index, found⟩
    by_cases declared : .label name ∈ calls
    · exact declared
    · rw [label?_attemptAll_of_not_mem declared] at found
      simp [Program.label?] at found
  · intro declared
    obtain ⟨before, after, rfl, last⟩ := exists_last_declaration declared
    exact ⟨_, label?_attemptAll_declared last {}⟩

/-- **A program is its calls.** Of any calls, its instructions are those that the calls which were
not refused ask for, in order; a call that is refused leaves the builder as it was. A name points
at how many instructions had been recorded before it was declared last, and nowhere if it never
was. So no label points past the end, and what a label points at only changes with the next
declaration of its name. -/
theorem attemptAll_exact (calls : List Call) :
    let b := ({} : Builder).attemptAll calls
    b.program.instructions.toList = calls.filterMap Call.instruction? ∧
      (∀ before name after, calls = before ++ .label name :: after → .label name ∉ after →
        b.program.label? name = some (before.filterMap Call.instruction?).length) ∧
      (∀ name, .label name ∉ calls → b.program.label? name = none) ∧
      (∀ c next, b.call c = .ok next →
        b.attempt c = next ∧ ((∃ name, c = .label name) ∨ ∃ i, c.instruction? = some i)) ∧
      (∀ c d, b.call c = .error d →
        b.attempt c = b ∧ c.instruction? = none ∧ ∀ name, c ≠ .label name) ∧
      (∀ name index, b.program.label? name = some index → index ≤ b.program.size) ∧
      ∀ more name, .label name ∉ more →
        (({} : Builder).attemptAll (calls ++ more)).program.label? name = b.program.label? name := by
  intro b
  refine ⟨instructions_attemptAll {} calls, ?_, ?_, fun _ _ => attempt_of_call,
    fun _ _ => attempt_of_refused, (Program.Built.calls calls).bounded, ?_⟩
  · intro before name after split last
    show b.program.label? name = _
    rw [show b = ({} : Builder).attemptAll (before ++ .label name :: after) by rw [← split],
      label?_attemptAll_declared last]
    exact congrArg some (Nat.zero_add _)
  · intro name absent
    have nowhere : ({} : Builder).program.label? name = none := by simp [Program.label?]
    exact (label?_attemptAll_of_not_mem absent {}).trans nowhere
  · intro more name absent
    rw [attemptAll_append]
    exact label?_attemptAll_of_not_mem absent b

end QuadAsm.Builder
