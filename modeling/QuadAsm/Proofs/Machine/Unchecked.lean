import QuadAsm.Proofs.Machine.Step

/-! Executing parts that nobody has checked.

`executeUnchecked` takes an opcode and a list of operands as they come, and has two
refusals that a machine never shows: an operand that nothing can be read from, and parts
that no operation has. On the parts of an operation it is what the machine does
(`executeUnchecked_parts`), and on all others, and only on them, it is refused in one of
these two ways (`unchecked_iff`). -/
namespace QuadAsm

/-- What an operand is worth, if anything can be read from it. -/
def Operand.value? (bank : Bank) : Operand → Except Fault Int64
  | .datum d => .ok (d.value bank)
  | .label name => .error (.unknownRegister name)

namespace Machine

/-- The refusal of parts that no operation has. -/
def malformed (opcode : Opcode) (operands : List Operand) : Fault :=
  let text := opcode.name ++ " " ++ ", ".intercalate (operands.map Operand.text)
  .reported .malformedInstruction s!"Malformed instruction '{text}'"

/-- The machine after an opcode with these operands, not counted as a step yet. -/
def executeUnchecked (program : Program) (m : Machine) (opcode : Opcode)
    (operands : List Operand) : Except Fault Machine :=
  match opcode, operands with
  | .mov, [.datum (.register r), source] =>
    return m.write r (← source.value? m.registers)
  | .inc, [.datum (.register r), source] =>
    return m.write r (m.registers.get r + (← source.value? m.registers))
  | .dec, [.datum (.register r), source] =>
    return m.write r (m.registers.get r - (← source.value? m.registers))
  | .cmp, [left, right] => do
    let left ← left.value? m.registers
    let right ← right.value? m.registers
    return { m with flag := compare left right, pointer := m.pointer + 1 }
  | .jump condition, [.label name] =>
    if condition.holds m.flag then
      match program.label? name with
      | some index => return { m with pointer := index }
      | none => throw (.unresolvedLabel name)
    else return { m with pointer := m.pointer + 1 }
  | opcode, operands => throw (malformed opcode operands)

/-- The parts of an operation are executed as the operation is. -/
theorem executeUnchecked_parts (program : Program) (m : Machine) (operation : Operation) :
    m.executeUnchecked program operation.opcode operation.operands =
      m.execute program operation := by
  cases operation <;> rfl

/-- The two ways in which parts that nobody has checked are refused. -/
def Unchecked (result : Except Fault Machine) : Prop :=
  ∃ fault, result = .error fault ∧
    (fault.kind = .unknownRegister ∨ fault.kind = .malformedInstruction)

/-- Nothing is made of an operand that is no datum. -/
theorem unchecked_value {bank : Bank} {source : Operand} (write : Int64 → Machine)
    (unreadable : ∀ d, source ≠ .datum d) :
    Unchecked do return write (← source.value? bank) := by
  cases source with
  | datum d => exact absurd rfl (unreadable d)
  | label name => exact ⟨.unknownRegister name, rfl, .inl rfl⟩

/-- Parts that no operation has are refused, as unreadable or as malformed. -/
theorem executeUnchecked_stranger (program : Program) (m : Machine) {opcode : Opcode}
    {operands : List Operand}
    (stranger : ∀ operation : Operation, operation.opcode = opcode →
      operation.operands ≠ operands) :
    Unchecked (m.executeUnchecked program opcode operands) := by
  unfold executeUnchecked
  split
  · rename_i r source
    exact unchecked_value _ fun d same => stranger (.mov r d) rfl (by rw [same]; rfl)
  · rename_i r source
    exact unchecked_value _ fun d same => stranger (.inc r d) rfl (by rw [same]; rfl)
  · rename_i r source
    exact unchecked_value _ fun d same => stranger (.dec r d) rfl (by rw [same]; rfl)
  · rename_i left right
    cases left with
    | label name => exact ⟨.unknownRegister name, rfl, .inl rfl⟩
    | datum l => exact unchecked_value _ fun r same => stranger (.cmp l r) rfl (by rw [same]; rfl)
  · rename_i condition name
    exact absurd rfl (stranger (.jump condition name) rfl)
  · exact ⟨_, rfl, .inr rfl⟩

/-- These two refusals are of just the parts that no operation has. -/
theorem unchecked_iff (program : Program) (m : Machine) {opcode : Opcode}
    {operands : List Operand} :
    Unchecked (m.executeUnchecked program opcode operands) ↔
      ∀ operation : Operation, operation.opcode = opcode → operation.operands ≠ operands := by
  refine ⟨?_, executeUnchecked_stranger program m⟩
  rintro ⟨fault, refused, kind⟩ operation rfl rfl
  rw [executeUnchecked_parts] at refused
  obtain ⟨_, label, _, _, _, rfl⟩ := execute_eq_error_iff.mp refused
  rcases kind with kind | kind <;> cases kind

end Machine

end QuadAsm
