import QuadAsm.Proofs.Machine.Step

/-! Many steps, counted.

`advance` makes a given number of steps and stops at the first that is refused. A machine
that has halted stays where it is, so the number says how many steps are made at most; as
long as the machine runs it is the number on the machine's own counter
(`steps_of_advance`). A limit only cuts the steps of the machine without one short:
`advance_limit` and `unlimited_of_advance` take a machine with a limit to the one without
and back. -/
namespace QuadAsm.Machine

/-- The machine after so many steps, or the diagnostic of the first that is refused. -/
def advance (program : Program) (limit : Option Nat) : Nat → Machine → Except Diagnostic Machine
  | 0, m => .ok m
  | count + 1, m =>
    match m.step program limit with
    | .ok next => advance program limit count next
    | .error d => .error d

variable {program : Program} {limit : Option Nat} {m last : Machine} {a b count : Nat}

theorem advance_succ_eq_ok_iff : m.advance program limit (count + 1) = .ok last ↔
    ∃ next, m.step program limit = .ok next ∧ next.advance program limit count = .ok last := by
  rw [advance]
  cases m.step program limit <;> simp

/-- What is left to do after one step. -/
theorem advance_of_step {next : Machine} (stepped : m.step program limit = .ok next) :
    m.advance program limit (count + 1) = next.advance program limit count := by
  rw [advance, stepped]

/-- What is left to do after a few steps. -/
theorem advance_add (h : m.advance program limit a = .ok last) :
    m.advance program limit (a + b) = last.advance program limit b := by
  induction a generalizing m with
  | zero =>
    cases h
    rw [Nat.zero_add]
  | succ a ih =>
    obtain ⟨next, stepped, rest⟩ := advance_succ_eq_ok_iff.mp h
    rw [Nat.add_right_comm, advance, stepped]
    exact ih rest

theorem advance_of_halted (halted : m.halted program = true) :
    m.advance program limit count = .ok m := by
  induction count with
  | zero => rfl
  | succ count ih => exact advance_succ_eq_ok_iff.mpr ⟨m, step_of_halted limit halted, ih⟩

/-- What each step keeps, many steps keep. -/
theorem advance_keeps {holds : Machine → Prop}
    (keeps : ∀ {m next}, holds m → m.step program limit = .ok next → holds next) (here : holds m)
    (reached : m.advance program limit count = .ok last) : holds last := by
  induction count generalizing m with
  | zero =>
    cases reached
    exact here
  | succ count ih =>
    obtain ⟨next, stepped, rest⟩ := advance_succ_eq_ok_iff.mp reached
    exact ih (keeps here stepped) rest

/-! ### The counter -/

@[simp] theorem steps_start : start.steps = 0 := rfl

/-- A machine that runs after so many steps has counted every one of them. -/
theorem steps_of_advance (h : m.advance program limit count = .ok last)
    (running : last.halted program = false) : last.steps = m.steps + count := by
  induction count generalizing m with
  | zero =>
    cases h
    rfl
  | succ count ih =>
    obtain ⟨next, stepped, rest⟩ := advance_succ_eq_ok_iff.mp h
    rcases steps_of_step stepped with ⟨halted, rfl⟩ | ⟨_, _, counted⟩
    · rw [advance_of_halted halted] at rest
      cases rest
      rw [halted] at running
      cases running
    · rw [ih rest, counted]
      omega

/-! ### With a limit and without -/

/-- As many steps as the limit leaves are made as if there were none. -/
theorem advance_limit {bound : Nat} (room : m.steps + count ≤ bound) :
    m.advance program (some bound) count = m.advance program none count := by
  induction count generalizing m with
  | zero => rfl
  | succ count ih =>
    have free : m.reached? (some bound) = none :=
      reached?_eq_none_iff.mpr fun _ h => by cases h; omega
    rw [advance, advance, step_of_free program free]
    cases stepped : m.step program none with
    | error d => rfl
    | ok next =>
      -- A halted machine does not count, so the room left may be more than the counter says.
      rcases steps_of_step stepped with ⟨_, rfl⟩ | ⟨_, _, counted⟩
      · exact ih (by omega)
      · exact ih (by omega)

/-- What is reached under a limit is reached without one, in as many steps as the limit
allows. -/
theorem unlimited_of_advance {bound : Nat} (room : m.steps ≤ bound)
    (h : m.advance program (some bound) count = .ok last) :
    ∃ made, m.steps + made ≤ bound ∧ m.advance program none made = .ok last := by
  induction count generalizing m with
  | zero => exact ⟨0, room, h⟩
  | succ count ih =>
    obtain ⟨next, stepped, rest⟩ := advance_succ_eq_ok_iff.mp h
    rcases steps_of_step stepped with ⟨halted, rfl⟩ | ⟨_, free, counted⟩
    · rw [advance_of_halted halted] at rest
      exact ⟨0, room, rest⟩
    · have short := reached?_eq_none_iff.mp free bound rfl
      obtain ⟨made, within, reached⟩ := ih (by omega) rest
      refine ⟨made + 1, by omega, advance_succ_eq_ok_iff.mpr ⟨next, ?_, reached⟩⟩
      rw [← step_of_free program free]
      exact stepped

end QuadAsm.Machine
