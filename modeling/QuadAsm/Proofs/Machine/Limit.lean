import QuadAsm.Proofs.Machine.Ends

/-! The step limit is exact.

A machine under a limit does what the machine without one does, and is stopped after
exactly as many steps as the limit says, if it still runs then (`ends_limit_iff`). The
limit is asked before the instruction, so a machine stopped by it has not even looked at
whether its next instruction would fail, and a machine that halts with its last allowed
step is not stopped at all. `limited_run_exact` says this of whole runs from the start. -/
namespace QuadAsm.Machine

/-- How a run under a limit ends, told by what the machine without a limit does. -/
inductive LimitedEnd (program : Program) (bound : Nat) (m last : Machine) :
    Except Diagnostic Bank → Prop where
  | halted {count : Nat} (within : m.steps + count ≤ bound)
      (reached : m.advance program none count = .ok last) (halted : last.halted program = true) :
      LimitedEnd program bound m last (.ok last.registers)
  | unresolved {count : Nat} {d : Diagnostic} (within : m.steps + count < bound)
      (reached : m.advance program none count = .ok last)
      (refused : last.step program none = .error d) (kind : d.kind = .unresolvedLabel) :
      LimitedEnd program bound m last (.error d)
  | limited {count : Nat} {i : Instruction} (exactly : m.steps + count = bound)
      (reached : m.advance program none count = .ok last)
      (fetched : program.get? last.pointer = some i) :
      LimitedEnd program bound m last (.error (Fault.stepLimit bound |>.at i.span))

variable {program : Program} {bound : Nat} {m last : Machine} {result : Except Diagnostic Bank}

theorem Ends.limitedEnd (room : m.steps ≤ bound) (h : Ends program (some bound) m last result) :
    LimitedEnd program bound m last result := by
  obtain ⟨_, made, final⟩ := h
  obtain ⟨count, within, reached⟩ := unlimited_of_advance room made
  cases final with
  | halted halted => exact .halted within reached halted
  | refused refused =>
    have counted := steps_of_advance reached (running_of_refused refused)
    cases Stepped.of_eq refused with
    | limited fetched stopped =>
      obtain ⟨⟨⟩, past⟩ := reached?_eq_some_iff.mp stopped
      exact .limited (by omega) reached fetched
    | unresolved fetched free jump taken undeclared =>
      have short := reached?_eq_none_iff.mp free bound rfl
      rw [step_of_free program free] at refused
      exact .unresolved (by omega) reached refused (kind_of_refused refused)

theorem LimitedEnd.ends (h : LimitedEnd program bound m last result) :
    Ends program (some bound) m last result := by
  cases h with
  | @halted count within reached halted =>
    exact ⟨count, (advance_limit within).trans reached, .halted halted⟩
  | @unresolved count d within reached refused kind =>
    have counted := steps_of_advance reached (running_of_refused refused)
    have free : last.reached? (some bound) = none :=
      reached?_eq_none_iff.mpr fun _ h => by cases h; omega
    refine ⟨count, (advance_limit (Nat.le_of_lt within)).trans reached, .refused ?_⟩
    rw [step_of_free program free]
    exact refused
  | @limited count i exactly reached fetched =>
    have counted := steps_of_advance reached (running_iff.mpr ⟨i, fetched⟩)
    have stopped : last.reached? (some bound) = some bound :=
      reached?_eq_some_iff.mpr ⟨rfl, by omega⟩
    refine ⟨count, (advance_limit (Nat.le_of_eq exactly)).trans reached, .refused ?_⟩
    simp only [step, fetched, stopped]

theorem ends_limit_iff (room : m.steps ≤ bound) :
    Ends program (some bound) m last result ↔ LimitedEnd program bound m last result :=
  ⟨Ends.limitedEnd room, LimitedEnd.ends⟩

/-- A machine that a limit stopped runs, and has made what steps the limit left. -/
theorem LimitedEnd.of_stepLimit {d : Diagnostic} (h : LimitedEnd program bound m last (.error d))
    (kind : d.kind = .stepLimit) :
    m.advance program none (bound - m.steps) = .ok last ∧ last.halted program = false := by
  cases h with
  | unresolved _ _ _ other =>
    rw [kind] at other
    cases other
  | limited exactly reached fetched =>
    subst exactly
    rw [Nat.add_sub_cancel_left]
    exact ⟨reached, running_iff.mpr ⟨_, fetched⟩⟩

/-- What comes to its end under a limit does so under a larger one. -/
theorem LimitedEnd.mono {registers : Bank} {larger : Nat}
    (h : LimitedEnd program bound m last (.ok registers)) (le : bound ≤ larger) :
    LimitedEnd program larger m last (.ok registers) := by
  cases h with
  | halted within reached halted => exact .halted (Nat.le_trans within le) reached halted

/-- **The step limit is exact.** A run from the start under a limit is always over. It
gives registers just when the machine without a limit halts with them after no more steps
than the limit, an undeclared label just when that machine is refused for it before as many
steps, and the step limit just when that machine still runs after exactly as many; then the
two machines are the same, whatever the next instruction would come to. So registers that
one limit gives, every larger limit gives. -/
theorem limited_run_exact (program : Program) (limit : Nat) :
    ∃ ending, start.run program (some limit) = some ending ∧
      (∀ registers, ending.result = .ok registers ↔
        ∃ count ≤ limit, ∃ m, start.advance program none count = .ok m ∧
          m.halted program = true ∧ m.registers = registers) ∧
      (∀ d, ending.result = .error d ∧ d.kind = .unresolvedLabel ↔
        ∃ count < limit, ∃ m, start.advance program none count = .ok m ∧
          m.step program none = .error d) ∧
      ((∃ d, ending.result = .error d ∧ d.kind = .stepLimit) ↔
        ∃ m, start.advance program none limit = .ok m ∧ m.halted program = false) ∧
      (∀ d, ending.result = .error d → d.kind = .unresolvedLabel ∨ d.kind = .stepLimit) ∧
      (∀ d, ending.result = .error d → d.kind = .stepLimit →
        start.advance program none limit = .ok ending.machine ∧ ending.machine.steps = limit) ∧
      (∀ registers larger, ending.result = .ok registers → limit < larger →
        program.run (some larger) = some (.ok registers)) := by
  obtain ⟨ending, carried⟩ := exists_runWith program limit (fun _ _ => ()) start ()
  have ends {last : Machine} {result : Except Diagnostic Bank} :
      LimitedEnd program limit start last result ↔
        ending.machine = last ∧ ending.result = result :=
    (ends_limit_iff (Nat.zero_le limit)).symm.trans (ends_iff carried)
  have ended := ends.mpr ⟨rfl, rfl⟩
  refine ⟨ending, carried, fun registers => ⟨?_, ?_⟩, fun d => ⟨?_, ?_⟩, ⟨?_, ?_⟩, ?_, ?_, ?_⟩
  · intro result
    rw [result] at ended
    cases ended with
    | halted within reached halted =>
      exact ⟨_, by simpa using within, _, reached, halted, rfl⟩
  · rintro ⟨count, within, m, reached, halted, rfl⟩
    exact (ends.mp (.halted (by simpa using within) reached halted)).2
  · rintro ⟨result, kind⟩
    rw [result] at ended
    cases ended with
    | unresolved within reached refused _ => exact ⟨_, by simpa using within, _, reached, refused⟩
    | limited _ _ _ => cases kind
  · rintro ⟨count, within, m, reached, refused⟩
    have kind := kind_of_refused refused
    exact ⟨(ends.mp (.unresolved (by simpa using within) reached refused kind)).2, kind⟩
  · rintro ⟨d, result, kind⟩
    rw [result] at ended
    obtain ⟨reached, running⟩ := ended.of_stepLimit kind
    exact ⟨_, reached, running⟩
  · rintro ⟨m, reached, running⟩
    obtain ⟨i, fetched⟩ := running_iff.mp running
    exact ⟨_, (ends.mp (.limited (by simp) reached fetched)).2, rfl⟩
  · intro d result
    rw [result] at ended
    cases ended with
    | unresolved _ _ _ kind => exact .inl kind
    | limited _ _ _ => exact .inr rfl
  · intro d result kind
    rw [result] at ended
    obtain ⟨reached, running⟩ := ended.of_stepLimit kind
    exact ⟨reached, by simpa using steps_of_advance reached running⟩
  · intro registers larger result le
    rw [result] at ended
    exact run_of_ends (ended.mono (Nat.le_of_lt le)).ends

end QuadAsm.Machine
