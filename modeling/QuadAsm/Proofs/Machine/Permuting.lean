import Mathlib.Logic.Equiv.Basic
import QuadAsm.Proofs.Machine.Lockstep

/-! Registers are interchangeable.

No register has a part of its own: what an operation does with the registers it names it would do
with any others. So a program in which the registers have changed places behaves, with the values
at their new places, as it did before. One operation carries this over to the machine it leaves
(`execute_permute`), hence a step and any number of steps (`advance_permute`); so the two go in step
whatever is called, and `registers_interchangeable` says it of any calls from the start, register
by register. -/
namespace QuadAsm

/-! ### Other places -/

/-- The bank with the value of each register at the place it is sent to. -/
def Bank.permute (σ : Equiv.Perm Register) (bank : Bank) : Bank where
  ax := bank.get (σ.symm .ax)
  bx := bank.get (σ.symm .bx)
  cx := bank.get (σ.symm .cx)
  dx := bank.get (σ.symm .dx)

def Datum.permute (σ : Equiv.Perm Register) : Datum → Datum
  | register r => register (σ r)
  | literal value => literal value

def Operand.permute (σ : Equiv.Perm Register) : Operand → Operand
  | datum d => datum (d.permute σ)
  | label name => label name

def Operation.permute (σ : Equiv.Perm Register) : Operation → Operation
  | mov destination source => mov (σ destination) (source.permute σ)
  | inc destination source => inc (σ destination) (source.permute σ)
  | dec destination source => dec (σ destination) (source.permute σ)
  | cmp left right => cmp (left.permute σ) (right.permute σ)
  | jump condition label => jump condition label

/-- The program with every register replaced by the one it is sent to. -/
def Program.permute (σ : Equiv.Perm Register) (program : Program) : Program :=
  { program with
    instructions := program.instructions.map fun i => { i with operation := i.operation.permute σ } }

namespace Machine

def permute (σ : Equiv.Perm Register) (m : Machine) : Machine :=
  { m with registers := m.registers.permute σ }

def Answer.permute (σ : Equiv.Perm Register) : Answer → Answer
  | ran registers => ran (registers.permute σ)
  | answer => answer

end Machine

variable {σ : Equiv.Perm Register}

@[simp] theorem Bank.get_permute (bank : Bank) (r : Register) :
    (bank.permute σ).get r = bank.get (σ.symm r) := by
  cases r <;> rfl

/-- What is written to a register is found where the register is sent to. -/
theorem Bank.permute_set (bank : Bank) (r : Register) (value : Int64) :
    (bank.set r value).permute σ = (bank.permute σ).set (σ r) value := by
  apply ext_get
  intro s
  simp only [get_permute, get_set, Equiv.eq_symm_apply]

theorem Bank.permute_zero : zero.permute σ = zero := by
  apply ext_get
  intro r
  rw [get_permute, get_zero, get_zero]

/-- A datum is worth the same at its new place. -/
@[simp] theorem Datum.value_permute (bank : Bank) (d : Datum) :
    (d.permute σ).value (bank.permute σ) = d.value bank := by
  cases d with
  | register r => simp [permute, value]
  | literal value => rfl

theorem Operation.opcode_permute (operation : Operation) :
    (operation.permute σ).opcode = operation.opcode := by
  cases operation <;> rfl

theorem Operation.operands_permute (operation : Operation) :
    (operation.permute σ).operands = operation.operands.map (Operand.permute σ) := by
  cases operation <;> rfl

theorem Program.get?_permute (program : Program) (index : Nat) :
    (program.permute σ).get? index =
      (program.get? index).map fun i => { i with operation := i.operation.permute σ } := by
  simp [permute, get?]

@[simp] theorem Program.size_permute (program : Program) :
    (program.permute σ).size = program.size := by
  simp [permute, size]

@[simp] theorem Program.label?_permute (program : Program) (name : String) :
    (program.permute σ).label? name = program.label? name := rfl

namespace Machine

variable {program : Program} {limit : Option Nat}

@[simp] theorem permute_start : start.permute σ = start :=
  congrArg (fun registers => { start with registers }) Bank.permute_zero

@[simp] theorem halted_permute (m : Machine) :
    (m.permute σ).halted (program.permute σ) = m.halted program := by
  simp only [halted, Program.size_permute]
  rfl

theorem write_permute (m : Machine) (r : Register) (value : Int64) :
    (m.permute σ).write (σ r) value = (m.write r value).permute σ := by
  simp only [write, permute, Bank.permute_set]

/-! ### Steps -/

/-- An operation on registers at their new places leaves the machine it left before, with the
values at their new places. -/
theorem execute_permute (m : Machine) (operation : Operation) :
    (m.permute σ).execute (program.permute σ) (operation.permute σ) =
      (m.execute program operation).map (permute σ) := by
  have registers : (m.permute σ).registers = m.registers.permute σ := rfl
  cases operation with
  | mov destination source =>
    simp only [Operation.permute, execute, registers, Datum.value_permute, write_permute]
    rfl
  | inc destination source | dec destination source =>
    simp only [Operation.permute, execute, registers, Datum.value_permute, Bank.get_permute,
      Equiv.symm_apply_apply, write_permute]
    rfl
  | cmp left right =>
    simp only [Operation.permute, execute, registers, Datum.value_permute]
    rfl
  | jump condition label =>
    have flag : (m.permute σ).flag = m.flag := rfl
    simp only [Operation.permute, execute, flag, Program.label?_permute]
    split
    · cases program.label? label <;> rfl
    · rfl

theorem step_permute (m : Machine) :
    (m.permute σ).step (program.permute σ) limit = (m.step program limit).map (permute σ) := by
  have pointer : (m.permute σ).pointer = m.pointer := rfl
  have reached : (m.permute σ).reached? limit = m.reached? limit := rfl
  simp only [step, pointer, reached, Program.get?_permute]
  cases program.get? m.pointer with
  | none => rfl
  | some i =>
    cases m.reached? limit with
    | some bound => rfl
    | none =>
      simp only [Option.map_some, execute_permute]
      cases m.execute program i.operation <;> rfl

theorem advance_permute (count : Nat) (m : Machine) :
    (m.permute σ).advance (program.permute σ) limit count =
      (m.advance program limit count).map (permute σ) := by
  induction count generalizing m with
  | zero => rfl
  | succ count ih =>
    rw [advance, advance, step_permute]
    cases m.step program limit with
    | ok next => exact ih next
    | error d => rfl

/-! ### Calls -/

/-- The logs of the two differ, because they name the registers. -/
theorem lockstep_permute (σ : Equiv.Perm Register) (program : Program) (limit : Option Nat) :
    Lockstep program (program.permute σ) limit (fun m n => n = m.permute σ)
      (fun a b => b = a.permute σ) Eq where
  size := (Program.size_permute program).symm
  start := permute_start.symm
  pointer := by rintro m _ rfl; rfl
  steps := by rintro m _ rfl; rfl
  registers := by rintro m _ rfl; rfl
  step := by
    rintro m _ rfl
    rw [step_permute]
    cases m.step program limit with
    | ok next => exact .ok rfl
    | error d => exact .error rfl

theorem Answer.permute_of_alike {answer other : Answer}
    (h : answer.Alike (fun a b => b = a.permute σ) Eq other) : answer.permute σ = other := by
  cases h with
  | stepped halted => rfl
  | ran same => exact congrArg Answer.ran same.symm
  | reset => rfl
  | refused same => exact congrArg Answer.refused same

theorem callAll_permute (σ : Equiv.Perm Register) (program : Program) (limit : Option Nat)
    (m : Machine) (calls : List Call) :
    (m.permute σ).callAll (program.permute σ) limit calls =
      (m.callAll program limit calls).map fun (answers, last) =>
        (answers.map (Answer.permute σ), last.permute σ) := by
  have same := (lockstep_permute σ program limit).callAll (rfl : m.permute σ = m.permute σ) calls
  generalize m.callAll program limit calls = here,
    (m.permute σ).callAll (program.permute σ) limit calls = there at same
  cases same with
  | none => rfl
  | @some replies others alike =>
    have answers : replies.1.map (Answer.permute σ) = others.1 := by
      rw [← List.forall₂_eq_eq_eq, List.forall₂_map_left_iff]
      exact alike.1.imp fun _ _ answer => Answer.permute_of_alike answer
    exact congrArg some (Prod.ext answers.symm alike.2)

/-! ### Register by register -/

/-- The machines are at one point of their programs, the second with the value of each register
in the one it is sent to. -/
structure Mirrors (σ : Equiv.Perm Register) (m n : Machine) : Prop where
  pointer : n.pointer = m.pointer
  flag : n.flag = m.flag
  steps : n.steps = m.steps
  registers : ∀ r, n.registers.get (σ r) = m.registers.get r

/-- The answers are the same, refusals in full, but for registers that are sent elsewhere. -/
inductive Answer.Mirrors (σ : Equiv.Perm Register) : Answer → Answer → Prop where
  | stepped (halted : Bool) : Mirrors σ (.stepped halted) (.stepped halted)
  | ran {a b : Bank} (registers : ∀ r, b.get (σ r) = a.get r) : Mirrors σ (.ran a) (.ran b)
  | reset : Mirrors σ .reset .reset
  | refused (d : Diagnostic) : Mirrors σ (.refused d) (.refused d)

theorem mirrors_permute (m : Machine) : m.Mirrors σ (m.permute σ) := by
  refine ⟨rfl, rfl, rfl, fun r => ?_⟩
  show (m.registers.permute σ).get (σ r) = _
  rw [Bank.get_permute, Equiv.symm_apply_apply]

/-- One machine mirrors another. -/
theorem mirrors_iff {m n : Machine} : m.Mirrors σ n ↔ n = m.permute σ := by
  constructor
  · intro ⟨pointer, flag, steps, registers⟩
    have bank : n.registers = m.registers.permute σ := by
      apply Bank.ext_get
      intro r
      rw [Bank.get_permute, ← registers, Equiv.apply_symm_apply]
    obtain ⟨⟩ := n
    cases pointer
    cases flag
    cases steps
    cases bank
    rfl
  · rintro rfl
    exact mirrors_permute m

theorem Answer.mirrors_permute (answer : Answer) : answer.Mirrors σ (answer.permute σ) := by
  cases answer with
  | stepped halted => exact .stepped halted
  | ran registers =>
    refine .ran fun r => ?_
    rw [Bank.get_permute, Equiv.symm_apply_apply]
  | reset => exact .reset
  | refused d => exact .refused d

/-- The calls leave machines that mirror each other, with answers that do. -/
def MirrorReplies (σ : Equiv.Perm Register) (replies others : List Answer × Machine) : Prop :=
  List.Forall₂ (Answer.Mirrors σ) replies.1 others.1 ∧ replies.2.Mirrors σ others.2

/-- **Registers are interchangeable.** A program is taken with every register operand replaced by
the register it is sent to, and nothing else changed. Under any limit both programs then do the
same, with the value of each register in the one it is sent to: machines that mirror each other
are halted alike, and as many steps lead them to such machines again or are refused with one
diagnostic; and whatever is called from the start returns for both or for neither, is answered
alike, and leaves machines that mirror each other. -/
theorem registers_interchangeable (σ : Equiv.Perm Register) (program : Program)
    (limit : Option Nat) :
    (∀ index, ((program.permute σ).get? index).map (fun i => (i.opcode, i.operands, i.span)) =
        (program.get? index).map fun i => (i.opcode, i.operands.map (Operand.permute σ), i.span)) ∧
      (∀ m n : Machine, m.Mirrors σ n ↔ n = m.permute σ) ∧
      (∀ m : Machine, (m.permute σ).halted (program.permute σ) = m.halted program ∧
        ∀ count, (m.permute σ).advance (program.permute σ) limit count =
          (m.advance program limit count).map (permute σ)) ∧
      ∀ calls, Option.Rel (MirrorReplies σ) (start.callAll program limit calls)
        (start.callAll (program.permute σ) limit calls) := by
  refine ⟨fun index => ?_, fun m n => mirrors_iff, fun m => ⟨halted_permute m, ?_⟩, fun calls => ?_⟩
  · rw [Program.get?_permute, Option.map_map]
    congr 1
    funext i
    simp only [Function.comp_apply, Instruction.opcode, Instruction.operands,
      Operation.opcode_permute, Operation.operands_permute]
  · exact fun count => advance_permute count m
  · have same := callAll_permute σ program limit start calls
    rw [permute_start] at same
    rw [same]
    cases start.callAll program limit calls with
    | none => exact .none
    | some replies =>
      refine .some ⟨?_, mirrors_permute replies.2⟩
      rw [List.forall₂_map_right_iff]
      exact List.forall₂_same.mpr fun answer _ => answer.mirrors_permute

end Machine

end QuadAsm
