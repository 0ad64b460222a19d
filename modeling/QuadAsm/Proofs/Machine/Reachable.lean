import Mathlib.Order.Defs.LinearOrder
import QuadAsm.Proofs.Machine.Ends
import QuadAsm.Proofs.Machine.Unchecked
import QuadAsm.Proofs.Program.Built

/-! What holds of every machine that calls can lead to.

A call resets the machine or advances it (`advance_of_call`), and a call that is refused
leaves it where its next step is refused (`refused_of_call`), so what a step keeps every
reachable machine has. A step keeps the pointer within the program, because labels do not
point past its end, and the counter within the limit (`Sound`). Two refusals are all that a
machine shows, and both of them say why (`reachable_sound`). -/
namespace QuadAsm.Machine

variable {program : Program} {limit : Option Nat} {m : Machine}

/-! ### Calls -/

/-- A call that is no reset advances the machine. -/
theorem advance_of_call {c : Call} {reply : Reply} (h : m.call program limit c = some reply)
    (advances : c ≠ .reset) :
    ∃ count, m.advance program limit count = .ok reply.machine := by
  cases c with
  | step =>
    simp only [call] at h
    split at h
    · rename_i next stepped
      cases h
      exact ⟨1, advance_succ_eq_ok_iff.mpr ⟨next, stepped, rfl⟩⟩
    · cases h
      exact ⟨0, rfl⟩
  | run =>
    obtain ⟨ending, carried, rfl⟩ := Option.map_eq_some_iff.mp h
    obtain ⟨count, reached, _⟩ := ends_of_runFor carried
    refine ⟨count, ?_⟩
    split <;> exact reached
  | reset => exact absurd rfl advances

/-- A call that is refused leaves the machine where its next step is refused. -/
theorem refused_of_call {c : Call} {reply : Reply} {d : Diagnostic}
    (h : m.call program limit c = some reply) (refused : reply.answer = .refused d) :
    reply.machine.step program limit = .error d := by
  cases c with
  | step =>
    simp only [call] at h
    split at h
    · cases h
      cases refused
    · rename_i d' stepped
      cases h
      cases refused
      exact stepped
  | run =>
    obtain ⟨ending, carried, rfl⟩ := Option.map_eq_some_iff.mp h
    obtain ⟨_, _, final⟩ := ends_of_runFor carried
    split at refused
    · cases refused
    · rename_i d' result
      cases refused
      rw [result] at final
      cases final with
      | refused stepped => simpa only [result] using stepped
  | reset =>
    cases h
    cases refused

/-- The machines that calls lead to, one after the other, from the start. -/
inductive Reachable (program : Program) (limit : Option Nat) : Machine → Prop where
  | start : Reachable program limit start
  | call {m : Machine} {c : Call} {reply : Reply} (before : Reachable program limit m)
      (called : m.call program limit c = some reply) : Reachable program limit reply.machine

/-! ### The invariant -/

/-- The pointer is within the program or just past it, the counter within the limit. -/
structure Sound (program : Program) (limit : Option Nat) (m : Machine) : Prop where
  pointer : m.pointer ≤ program.size
  steps : ∀ bound, limit = some bound → m.steps ≤ bound

theorem sound_start : Sound program limit start :=
  ⟨Nat.zero_le _, fun _ _ => Nat.zero_le _⟩

theorem Sound.step (bounded : program.Bounded) (sound : Sound program limit m) {next : Machine}
    (h : m.step program limit = .ok next) : Sound program limit next := by
  cases Stepped.of_eq h with
  | halted _ => exact sound
  | executed fetched free done =>
    have inside : m.pointer < program.size := by
      rw [← Nat.not_le, ← Program.get?_eq_none_iff, fetched]
      simp
    refine ⟨?_, reached?_eq_none_iff.mp free⟩
    rcases execute_pointer done with follows | ⟨label, _, declared⟩
    · show _ ≤ program.size
      rw [follows]
      exact inside
    · exact bounded label _ declared

theorem Sound.advance (bounded : program.Bounded) {count : Nat} {last : Machine}
    (sound : Sound program limit m) (h : m.advance program limit count = .ok last) :
    Sound program limit last :=
  advance_keeps (fun sound stepped => sound.step bounded stepped) sound h

theorem Reachable.sound (bounded : program.Bounded) (h : Reachable program limit m) :
    Sound program limit m := by
  induction h with
  | start => exact sound_start
  | @call m c reply _ called ih =>
    by_cases reset : c = .reset
    · subst reset
      cases called
      exact sound_start
    · obtain ⟨count, reached⟩ := advance_of_call called reset
      exact ih.advance bounded reached

theorem Sound.halted_iff (sound : Sound program limit m) :
    m.halted program = true ↔ m.pointer = program.size := by
  rw [halted, decide_eq_true_eq]
  exact ⟨fun past => Nat.le_antisymm sound.pointer past, fun h => Nat.le_of_eq h.symm⟩

/-! ### The refusals -/

/-- A step is refused for an undeclared label or, when there is a limit, for it. -/
theorem fault_of_refused {d : Diagnostic} (h : m.step program limit = .error d) :
    (∃ name, d.fault = .unresolvedLabel name) ∨
      ∃ bound, limit = some bound ∧ d.fault = .stepLimit bound := by
  cases Stepped.of_eq h with
  | limited _ reached => exact .inr ⟨_, (reached?_eq_some_iff.mp reached).1, rfl⟩
  | unresolved _ _ _ _ _ => exact .inl ⟨_, Diagnostic.fault_locate _ _⟩

/-- **Every reachable machine is sound.** Of a program that was built in any way, a machine
that any calls lead to has its pointer within the program or just past it, where and only
where it has halted; it has counted no more steps than its limit, if it has one; its calls
are refused for an undeclared label or that limit only; and no operand it reads is a label,
nor is any instruction it comes to malformed, since these refusals are of just the parts that
no operation has. -/
theorem reachable_sound (built : program.Built) (reachable : Reachable program limit m) :
    m.pointer ≤ program.size ∧
      (m.halted program = true ↔ m.pointer = program.size) ∧
      (∀ bound, limit = some bound → m.steps ≤ bound) ∧
      (∀ c reply d, m.call program limit c = some reply → reply.answer = .refused d →
        (∃ name, d.fault = .unresolvedLabel name) ∨
          ∃ bound, limit = some bound ∧ d.fault = .stepLimit bound) ∧
      (∀ i, program.get? m.pointer = some i →
        m.executeUnchecked program i.opcode i.operands = m.execute program i.operation ∧
          ∀ fault, m.executeUnchecked program i.opcode i.operands = .error fault →
            ∃ name, fault = .unresolvedLabel name) ∧
      ∀ opcode operands, Unchecked (m.executeUnchecked program opcode operands) ↔
        ∀ operation : Operation, operation.opcode = opcode → operation.operands ≠ operands := by
  have sound := reachable.sound built.bounded
  refine ⟨sound.pointer, sound.halted_iff, sound.steps, ?_, ?_, fun _ _ => unchecked_iff program m⟩
  · intro c reply d called refused
    exact fault_of_refused (refused_of_call called refused)
  · intro i _
    have same : m.executeUnchecked program i.opcode i.operands = m.execute program i.operation :=
      executeUnchecked_parts program m i.operation
    refine ⟨same, fun fault refused => ?_⟩
    rw [same] at refused
    obtain ⟨_, label, _, _, _, rfl⟩ := execute_eq_error_iff.mp refused
    exact ⟨label, rfl⟩

/-- Built by four calls of which one is refused, and run up to its limit. -/
theorem reachable_sound_loop :
    let calls := [.label "top", .mov .ax (.label "top"), .inc .ax (.literal 1), .jump .always "top"]
    let program := (({} : Builder).attemptAll calls).program
    ∃ m, Reachable program (some 3) m ∧ m.steps = 3 ∧ m.halted program = false ∧
      m.pointer ≤ program.size := by
  intro calls program
  let last : Machine := { registers := ({} : Bank).set .ax 2, pointer := 1, steps := 3 }
  have replied : (start.call program (some 3) .run).map (·.machine) = some last := by cbv
  obtain ⟨reply, called, left⟩ := Option.map_eq_some_iff.mp replied
  have reachable : Reachable program (some 3) last := left ▸ .call .start called
  have sound := reachable_sound (.calls calls) reachable
  have runs : last.halted program = false := by cbv
  exact ⟨last, reachable, rfl, runs, sound.1⟩

end QuadAsm.Machine
