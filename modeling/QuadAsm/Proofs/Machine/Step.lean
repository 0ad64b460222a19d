import QuadAsm.Machine

/-! What one step comes to, said once.

A step finds the machine halted, is refused by the limit, executes an instruction, or is
refused by a taken jump to a label nobody declares. `Stepped` lists these four outcomes,
each with all that it takes, and `stepped` says that there is no other. What is shown of
steps elsewhere is read off this list; the definition of `step` is not opened again. -/
namespace QuadAsm.Machine

/-! ### Executing an operation -/

/-- The one operation that is refused is a taken jump to a label nobody declares. -/
theorem execute_eq_error_iff {program : Program} {m : Machine} {operation : Operation}
    {fault : Fault} :
    m.execute program operation = .error fault ↔
      ∃ condition label, operation = .jump condition label ∧ condition.holds m.flag = true ∧
        program.label? label = none ∧ fault = .unresolvedLabel label := by
  cases operation with
  | jump condition label =>
    simp only [execute]
    constructor
    · intro refused
      split at refused
      · split at refused
        · cases refused
        · cases refused
          exact ⟨condition, label, rfl, by assumption, by assumption, rfl⟩
      · cases refused
    · rintro ⟨_, _, ⟨⟩, taken, undeclared, rfl⟩
      simp only [taken, undeclared, if_true]
  | _ => simp [execute]

/-- An operation goes on to the next instruction or to where its own label points. -/
theorem execute_pointer {program : Program} {m next : Machine} {operation : Operation}
    (h : m.execute program operation = .ok next) :
    next.pointer = m.pointer + 1 ∨
      ∃ label, operation.target? = some label ∧ program.label? label = some next.pointer := by
  cases operation with
  | jump condition label =>
    simp only [execute] at h
    split at h
    · split at h
      · cases h
        exact .inr ⟨label, rfl, by assumption⟩
      · cases h
    · cases h
      exact .inl rfl
  | _ =>
    cases h
    exact .inl rfl

/-- A jump that is taken goes where its label points. -/
theorem execute_taken {program : Program} {m : Machine} {condition : Condition} {label : String}
    {index : Nat} (declared : program.label? label = some index)
    (taken : condition.holds m.flag = true) :
    m.execute program (.jump condition label) = .ok { m with pointer := index } := by
  simp only [execute, taken, declared, if_true]

/-! ### Running, and the limit -/

theorem running_iff {program : Program} {m : Machine} :
    m.halted program = false ↔ ∃ i, program.get? m.pointer = some i := by
  rw [← Bool.not_eq_true, halted_iff, ← ne_eq, Option.ne_none_iff_exists']

theorem reached?_eq_some_iff {limit : Option Nat} {m : Machine} {bound : Nat} :
    m.reached? limit = some bound ↔ limit = some bound ∧ bound ≤ m.steps := by
  simp [reached?, Option.filter_eq_some_iff]

theorem reached?_eq_none_iff {limit : Option Nat} {m : Machine} :
    m.reached? limit = none ↔ ∀ bound, limit = some bound → m.steps < bound := by
  simp [reached?, Option.filter_eq_none_iff]

@[simp] theorem reached?_none (m : Machine) : m.reached? none = none := rfl

/-- Short of its limit a machine steps as if there were none. -/
theorem step_of_free {limit : Option Nat} {m : Machine} (program : Program)
    (free : m.reached? limit = none) : m.step program limit = m.step program none := by
  simp only [step, free, reached?_none]

/-! ### The outcomes of a step -/

/-- What a step of `m` can come to. -/
inductive Stepped (program : Program) (limit : Option Nat) (m : Machine) :
    Except Diagnostic Machine → Prop where
  | halted (ended : program.get? m.pointer = none) : Stepped program limit m (.ok m)
  | limited {i : Instruction} {bound : Nat} (fetched : program.get? m.pointer = some i)
      (reached : m.reached? limit = some bound) :
      Stepped program limit m (.error (Fault.stepLimit bound |>.at i.span))
  | executed {i : Instruction} {next : Machine} (fetched : program.get? m.pointer = some i)
      (free : m.reached? limit = none) (done : m.execute program i.operation = .ok next) :
      Stepped program limit m (.ok { next with steps := m.steps + 1 })
  | unresolved {i : Instruction} {condition : Condition} {label : String}
      (fetched : program.get? m.pointer = some i) (free : m.reached? limit = none)
      (jump : i.operation = .jump condition label) (taken : condition.holds m.flag = true)
      (undeclared : program.label? label = none) :
      Stepped program limit m (.error ((Fault.unresolvedLabel label).unplaced.locate i.span))

theorem stepped (program : Program) (limit : Option Nat) (m : Machine) :
    Stepped program limit m (m.step program limit) := by
  cases fetched : program.get? m.pointer with
  | none =>
    simp only [step, fetched]
    exact .halted fetched
  | some i =>
    cases reached : m.reached? limit with
    | some bound =>
      simp only [step, fetched, reached]
      exact .limited fetched reached
    | none =>
      cases done : m.execute program i.operation with
      | ok next =>
        simp only [step, fetched, reached, done]
        exact .executed fetched reached done
      | error fault =>
        obtain ⟨condition, label, jump, taken, undeclared, rfl⟩ := execute_eq_error_iff.mp done
        simp only [step, fetched, reached, done]
        exact .unresolved fetched reached jump taken undeclared

theorem Stepped.of_eq {program : Program} {limit : Option Nat} {m : Machine}
    {result : Except Diagnostic Machine} (h : m.step program limit = result) :
    Stepped program limit m result := h ▸ stepped program limit m

/-- A step that is not refused leaves the machine halted as it was, or makes a count. -/
theorem steps_of_step {program : Program} {limit : Option Nat} {m next : Machine}
    (h : m.step program limit = .ok next) :
    (m.halted program = true ∧ next = m) ∨
      (m.halted program = false ∧ m.reached? limit = none ∧ next.steps = m.steps + 1) := by
  cases Stepped.of_eq h with
  | halted ended => exact .inl ⟨halted_iff.mpr ended, rfl⟩
  | executed fetched free done => exact .inr ⟨running_iff.mpr ⟨_, fetched⟩, free, rfl⟩

/-- Without a limit only an undeclared label refuses a step. -/
theorem kind_of_refused {program : Program} {m : Machine} {d : Diagnostic}
    (h : m.step program none = .error d) : d.kind = .unresolvedLabel := by
  cases Stepped.of_eq h with
  | limited _ reached => cases reached
  | unresolved _ _ _ _ _ =>
    rw [Diagnostic.kind, Diagnostic.fault_locate]
    rfl

/-- Only a machine that has not halted is refused a step. -/
theorem running_of_refused {program : Program} {limit : Option Nat} {m : Machine} {d : Diagnostic}
    (h : m.step program limit = .error d) : m.halted program = false := by
  cases halted : m.halted program with
  | false => rfl
  | true =>
    rw [step_of_halted limit halted] at h
    cases h

end QuadAsm.Machine
