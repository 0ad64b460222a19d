import QuadAsm.Proofs.Machine.Advance

/-! A program inside a larger one.

A program is embedded in another one where its instructions stand there in one piece, some
places further on, and its labels point as much further (`Program.Embeds`). A machine inside the
piece then does what it does on the program alone, so many places further on: one step
(`Embeds.step`), and as many as it makes there (`Embeds.advance`). Where the piece is the end of
the larger program the two also halt together (`Embeds.advance_end`). Every program is embedded
in itself, no places further on, and this says that steps do not look at the counter. -/
namespace QuadAsm

/-- The machine so many places further on, with so many steps more on its counter. -/
def Machine.further (distance count : Nat) (m : Machine) : Machine :=
  { m with pointer := m.pointer + distance, steps := m.steps + count }

/-- The whole has the program in it, so many places from its start. -/
structure Program.Embeds (distance : Nat) (program whole : Program) : Prop where
  instructions : ∀ index i, program.get? index = some i → whole.get? (index + distance) = some i
  labels : ∀ name index, program.label? name = some index →
    whole.label? name = some (index + distance)

theorem Program.Embeds.refl (program : Program) : program.Embeds 0 program :=
  ⟨fun _ _ here => here, fun _ _ here => here⟩

namespace Machine

@[simp] theorem steps_further (distance count : Nat) (m : Machine) :
    (m.further distance count).steps = m.steps + count := rfl

@[simp] theorem pointer_further (distance count : Nat) (m : Machine) :
    (m.further distance count).pointer = m.pointer + distance := rfl

theorem further_further (distance count beyond more : Nat) (m : Machine) :
    (m.further distance count).further beyond more = m.further (distance + beyond) (count + more) := by
  simp [further, Nat.add_assoc]

theorem write_further (distance count : Nat) (m : Machine) (r : Register) (value : Int64) :
    (m.further distance count).write r value = (m.write r value).further distance count := by
  simp [further, write, Nat.add_right_comm]

theorem halted_further {program whole : Program} {distance : Nat} (count : Nat) (m : Machine)
    (ends : whole.size = program.size + distance) :
    (m.further distance count).halted whole = m.halted program := by
  simp [halted, ends]

end Machine

namespace Program

open Machine

variable {program whole : Program} {distance count made : Nat} {m next last : Machine}

/-! ### One step inside the piece -/

theorem Embeds.execute (embedded : program.Embeds distance whole) (count : Nat)
    {operation : Operation} (done : m.execute program operation = .ok next) :
    (m.further distance count).execute whole operation = .ok (next.further distance count) := by
  cases operation with
  | mov destination source =>
    cases done
    exact congrArg _ (write_further ..)
  | inc destination source =>
    cases done
    exact congrArg _ (write_further ..)
  | dec destination source =>
    cases done
    exact congrArg _ (write_further ..)
  | cmp left right =>
    cases done
    simp [Machine.execute, Machine.further, Nat.add_right_comm]
  | jump condition label =>
    have flag : (m.further distance count).flag = m.flag := rfl
    by_cases taken : condition.holds m.flag = true
    · cases declared : program.label? label with
      | none => simp [Machine.execute, taken, declared] at done
      | some index =>
        simp only [Machine.execute, taken, declared, if_true] at done
        cases done
        simp only [Machine.execute, flag, taken, embedded.labels label index declared, if_true]
        rfl
    · simp only [Machine.execute, taken, Bool.false_eq_true, if_false] at done
      cases done
      simp [Machine.execute, taken, Machine.further, Nat.add_right_comm]

/-- A step inside the piece is the same step further on. -/
theorem Embeds.step (embedded : program.Embeds distance whole) (count : Nat)
    (running : m.halted program = false) (stepped : m.step program none = .ok next) :
    (m.further distance count).step whole none = .ok (next.further distance count) := by
  cases Stepped.of_eq stepped with
  | halted ended =>
    rw [halted_iff.mpr ended] at running
    cases running
  | executed fetched _ done =>
    have there := embedded.instructions _ _ fetched
    have moved := embedded.execute count done
    simp only [Machine.step, pointer_further, there, reached?_none, moved]
    simp [Machine.further, Nat.add_right_comm]

/-! ### Many steps -/

/-- Steps that are all made inside the piece are made further on. -/
theorem Embeds.advance (embedded : program.Embeds distance whole) (count : Nat)
    (reached : m.advance program none made = .ok last) (counted : last.steps = m.steps + made) :
    (m.further distance count).advance whole none made = .ok (last.further distance count) := by
  induction made generalizing m with
  | zero =>
    cases reached
    rfl
  | succ made ih =>
    obtain ⟨next, stepped, rest⟩ := advance_succ_eq_ok_iff.mp reached
    apply advance_succ_eq_ok_iff.mpr
    rcases steps_of_step stepped with ⟨halted, rfl⟩ | ⟨running, _, one⟩
    · rw [advance_of_halted halted] at rest
      cases rest
      omega
    · exact ⟨_, embedded.step count running stepped, ih rest (by omega)⟩

/-- At the end of the whole a machine also halts as it does on the program alone. -/
theorem Embeds.advance_end (embedded : program.Embeds distance whole) (count : Nat)
    (ends : whole.size = program.size + distance)
    (reached : m.advance program none made = .ok last) :
    (m.further distance count).advance whole none made = .ok (last.further distance count) := by
  induction made generalizing m with
  | zero =>
    cases reached
    rfl
  | succ made ih =>
    obtain ⟨next, stepped, rest⟩ := advance_succ_eq_ok_iff.mp reached
    apply advance_succ_eq_ok_iff.mpr
    refine ⟨next.further distance count, ?_, ih rest⟩
    cases running : m.halted program with
    | false => exact embedded.step count running stepped
    | true =>
      rw [step_of_halted none running] at stepped
      cases stepped
      exact step_of_halted none (by rw [halted_further count m ends, running])

end Program

end QuadAsm
