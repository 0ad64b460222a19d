import QuadAsm.CommandLine
import QuadAsm.Proofs.Machine.Reachable
import Std.Data.String.ToNat

/-! The unresolved jumps of a program, and the steps refused for them.

Which jumps have no declared label is read off the program; whether one of them is taken
shows when it runs. A step is refused for a label just when it takes one of these jumps
(`refused_iff_unresolved`), so a program without any is only ever stopped by a limit, and
`check`, which counts them, foretells that (`unresolved_exact`). -/
namespace QuadAsm

theorem Program.mem_unresolved_iff {program : Program} {i : Instruction} :
    i ∈ program.unresolved ↔ i ∈ program.instructions ∧
      ∃ name, i.target? = some name ∧ program.label? name = none := by
  rw [unresolved, List.mem_filter, isUnresolved_iff, Array.mem_toList_iff]

/-- What has a target is a jump, and is taken when its condition holds. -/
theorem Operation.target?_eq_some_iff {operation : Operation} {label : String} :
    operation.target? = some label ↔ ∃ condition, operation = .jump condition label := by
  cases operation <;> simp [target?, eq_comm]

@[simp] theorem Opcode.taken_jump (condition : Condition) (flag : Flag) :
    (Opcode.jump condition).taken flag = condition.holds flag := rfl

/-- The command `check` answers with the summary of its program. -/
theorem CommandLine.check_stdout {source : String} {program : Program} (file : String)
    (verbosity : Nat) (clock : Clock) (assembled : assemble source = .ok program) :
    ∃ response, performBy clock ⟨.check, file, verbosity⟩ (.ok source) = some response ∧
      response.stdout = summary file program := by
  have result : (Assembly.ofSource source).result = .ok program := assembled
  simp only [performBy, result]
  exact ⟨_, rfl, rfl⟩

/-- A summary tells how many jumps are unresolved. -/
theorem CommandLine.summary_eq_iff {file : String} {program : Program} (count : Nat) :
    summary file program =
        s!"{file}: {program.size} instruction(s), {program.labels.size} label(s), " ++
          s!"{count} unresolved jump(s)\n" ↔ program.unresolved.length = count := by
  rw [summary, String.append_right_inj]
  exact (String.append_left_inj " unresolved jump(s)\n").trans Nat.repr_inj

namespace Machine

variable {program : Program} {limit : Option Nat} {m : Machine}

/-- The machine is about to take a jump, to this label, that no declaration resolves. -/
structure TakesUnresolved (program : Program) (limit : Option Nat) (m : Machine)
    (i : Instruction) (label : String) : Prop where
  running : m.halted program = false
  free : ∀ bound, limit = some bound → m.steps < bound
  fetched : program.get? m.pointer = some i
  unresolved : i ∈ program.unresolved
  taken : i.opcode.taken m.flag = true
  target : i.target? = some label

/-- A step is refused for a label just when it takes an unresolved jump. -/
theorem refused_iff_unresolved {d : Diagnostic} :
    m.step program limit = .error d ∧ d.kind = .unresolvedLabel ↔
      ∃ i label, TakesUnresolved program limit m i label ∧
        d = (Fault.unresolvedLabel label).unplaced.locate i.span := by
  constructor
  · rintro ⟨refused, kind⟩
    cases Stepped.of_eq refused with
    | limited _ _ => cases kind
    | @unresolved i condition label fetched free jump taken undeclared =>
      have target : i.target? = some label := congrArg Operation.target? jump
      have running : m.halted program = false := running_iff.mpr ⟨i, fetched⟩
      have short := reached?_eq_none_iff.mp free
      refine ⟨i, label, ⟨running, short, fetched, ?_, ?_, target⟩, rfl⟩
      · exact Program.mem_unresolved_iff.mpr
          ⟨Program.mem_of_get? fetched, label, target, undeclared⟩
      · have opcode : i.opcode = .jump condition := congrArg Operation.opcode jump
        rw [opcode, Opcode.taken_jump]
        exact taken
  · rintro ⟨i, label, h, rfl⟩
    obtain ⟨condition, jump⟩ := Operation.target?_eq_some_iff.mp h.target
    obtain ⟨_, name, named, undeclared⟩ := Program.mem_unresolved_iff.mp h.unresolved
    have same : name = label := Option.some.inj (named.symm.trans h.target)
    subst same
    have taken : condition.holds m.flag = true := by
      have opcode : i.opcode = .jump condition := congrArg Operation.opcode jump
      have taken := h.taken
      rw [opcode, Opcode.taken_jump] at taken
      exact taken
    have refused : m.execute program i.operation = .error (.unresolvedLabel name) :=
      execute_eq_error_iff.mpr ⟨condition, name, jump, taken, undeclared, rfl⟩
    have free : m.reached? limit = none := reached?_eq_none_iff.mpr h.free
    constructor
    · simp only [step, h.fetched, free, refused]
    · rw [Diagnostic.kind, Diagnostic.fault_locate]
      rfl

/-- **The static check for undeclared labels is exact.** A step is refused for a label just
when the machine runs, has not reached its limit, and takes one of the program's unresolved
jumps under its flag, and the refusal names that jump's label. So when there are none, which
is when `check` prints that there are 0, no call is ever refused but for the limit. -/
theorem unresolved_exact (program : Program) (limit : Option Nat) (m : Machine) :
    (∀ d, m.step program limit = .error d ∧ d.kind = .unresolvedLabel ↔
      ∃ i label, TakesUnresolved program limit m i label ∧
        d = (Fault.unresolvedLabel label).unplaced.locate i.span) ∧
      (program.unresolved = [] → ∀ c reply d, m.call program limit c = some reply →
        reply.answer = .refused d → ∃ bound, limit = some bound ∧ d.fault = .stepLimit bound) ∧
      (∀ file source verbosity clock, assemble source = .ok program → ∃ response,
        CommandLine.performBy clock ⟨.check, file, verbosity⟩ (.ok source) = some response ∧
          (program.unresolved = [] ↔ response.stdout =
            s!"{file}: {program.size} instruction(s), {program.labels.size} label(s), " ++
              "0 unresolved jump(s)\n")) := by
  refine ⟨fun _ => refused_iff_unresolved, ?_, ?_⟩
  · intro none c reply d called refused
    have refused := refused_of_call called refused
    rcases fault_of_refused refused with ⟨name, fault⟩ | limited
    · have kind : d.kind = .unresolvedLabel := by rw [Diagnostic.kind, fault]; rfl
      obtain ⟨i, _, h, _⟩ := refused_iff_unresolved.mp ⟨refused, kind⟩
      have member := h.unresolved
      rw [none] at member
      cases member
    · exact limited
  · intro file source verbosity clock assembled
    obtain ⟨response, performed, stdout⟩ := CommandLine.check_stdout file verbosity clock assembled
    refine ⟨response, performed, ?_⟩
    rw [stdout, ← List.length_eq_zero_iff]
    exact (CommandLine.summary_eq_iff 0).symm

end Machine

end QuadAsm
