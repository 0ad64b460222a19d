import Mathlib.Data.Int.ModEq
import Mathlib.Logic.Function.Basic
import QuadAsm.Proofs.Machine.Comparison

/-! Programs without jumps.

Such a program executes its instructions in order, each once, and nothing refuses them
(`exists_executed`). Its registers are words that wrap around, but an exact evaluation over the
integers (`evaluateAll`) tells what they hold: taking an integer to its word commutes with what
every operation does (`execute_ofIntegers`), so each register holds the one word that is congruent
to the exact value (`Bank.wraps_ofIntegers`), however far that has grown. The flag is what the last
comparison made of two words. `straight_line_exact` says all of this of the run from the start. -/
namespace QuadAsm

/-! ### Exact values -/

/-- What the datum is worth when the registers hold these integers. -/
def Datum.evaluate (values : Register → Int) : Datum → Int
  | register r => values r
  | literal value => value.toInt

/-- The integers that an operation leaves in the registers. -/
def Operation.evaluate (values : Register → Int) : Operation → Register → Int
  | mov destination source => Function.update values destination (source.evaluate values)
  | inc destination source =>
    Function.update values destination (values destination + source.evaluate values)
  | dec destination source =>
    Function.update values destination (values destination - source.evaluate values)
  | cmp _ _ => values
  | jump _ _ => values

/-- The integers that instructions leave in the registers, one after the other, all zero at
first. -/
def evaluateAll (instructions : List Instruction) : Register → Int :=
  instructions.foldl (fun values i => i.operation.evaluate values) fun _ => 0

/-- The bank holds, for each of the integers, the one word congruent to it. -/
def Bank.Wraps (values : Register → Int) (bank : Bank) : Prop :=
  ∀ r word, bank.get r = word ↔ word.toInt ≡ values r [ZMOD 2 ^ 64]

/-! ### Words of integers -/

theorem ofInt_eq_iff (value : Int) (word : Int64) :
    Int64.ofInt value = word ↔ word.toInt ≡ value [ZMOD 2 ^ 64] := by
  rw [Int64.ofInt_eq_iff_bmod_eq_toInt, Int.ModEq]
  constructor
  · intro same
    rw [← same]
    exact Int.bmod_emod
  · intro congruent
    have same : (word.toInt % (2 ^ 64 : Nat)).bmod (2 ^ 64) =
        (value % (2 ^ 64 : Nat)).bmod (2 ^ 64) := congrArg (Int.bmod · (2 ^ 64)) congruent
    rw [Int.emod_bmod, Int.emod_bmod] at same
    rw [← same]
    exact Int64.toInt_bmod word

/-- The words of these integers. -/
def Bank.ofIntegers (values : Register → Int) : Bank where
  ax := Int64.ofInt (values .ax)
  bx := Int64.ofInt (values .bx)
  cx := Int64.ofInt (values .cx)
  dx := Int64.ofInt (values .dx)

@[simp] theorem Bank.get_ofIntegers (values : Register → Int) (r : Register) :
    (ofIntegers values).get r = Int64.ofInt (values r) := by cases r <;> rfl

theorem Bank.wraps_ofIntegers (values : Register → Int) : (ofIntegers values).Wraps values := by
  intro r word
  rw [get_ofIntegers]
  exact ofInt_eq_iff (values r) word

theorem Bank.set_ofIntegers (values : Register → Int) (r : Register) (value : Int) :
    (ofIntegers values).set r (Int64.ofInt value) =
      ofIntegers (Function.update values r value) := by
  apply ext_get
  intro s
  simp only [get_set, get_ofIntegers, Function.update_apply, eq_comm (a := s)]
  split <;> rfl

theorem Datum.value_ofIntegers (values : Register → Int) (datum : Datum) :
    datum.value (Bank.ofIntegers values) = Int64.ofInt (datum.evaluate values) := by
  cases datum with
  | register r => exact Bank.get_ofIntegers values r
  | literal word => exact (Int64.ofInt_toInt word).symm

namespace Machine

variable {program : Program} {m : Machine}

/-! ### Execution without jumps -/

theorem registers_write_ofIntegers {values : Register → Int}
    (holds : m.registers = .ofIntegers values) (r : Register) (value : Int) :
    (m.write r (Int64.ofInt value)).registers = .ofIntegers (Function.update values r value) := by
  rw [← Bank.set_ofIntegers, ← holds]
  rfl

/-- What is not a jump is executed, does to words what it does to integers, and goes on to the next
instruction. -/
theorem execute_ofIntegers (program : Program) {operation : Operation} {values : Register → Int}
    (plain : operation.opcode.isJump = false) (holds : m.registers = .ofIntegers values) :
    ∃ next, m.execute program operation = .ok next ∧ next.pointer = m.pointer + 1 ∧
      next.registers = .ofIntegers (operation.evaluate values) := by
  cases operation with
  | mov r source =>
    refine ⟨_, rfl, rfl, ?_⟩
    rw [holds, Datum.value_ofIntegers]
    exact registers_write_ofIntegers holds r _
  | inc r source =>
    refine ⟨_, rfl, rfl, ?_⟩
    rw [holds, Datum.value_ofIntegers, Bank.get_ofIntegers, ← Int64.ofInt_add]
    exact registers_write_ofIntegers holds r _
  | dec r source =>
    refine ⟨_, rfl, rfl, ?_⟩
    rw [holds, Datum.value_ofIntegers, Bank.get_ofIntegers, ← Int64.ofInt_sub]
    exact registers_write_ofIntegers holds r _
  | cmp left right => exact ⟨_, rfl, rfl, holds⟩
  | jump condition label => cases plain

/-- The machine has executed these instructions, each once and in order, and no others. -/
structure Executed (program : Program) (done : List Instruction) (m : Machine) : Prop where
  path : ∃ visits, Path program none start visits m ∧ visits.map (·.instruction) = done
  pointer : m.pointer = done.length
  registers : m.registers = .ofIntegers (evaluateAll done)

theorem Executed.append {done : List Instruction} {i : Instruction}
    (executed : Executed program done m) (fetched : program.get? m.pointer = some i)
    (plain : i.opcode.isJump = false) :
    ∃ next, Executed program (done ++ [i]) next := by
  obtain ⟨visits, path, same⟩ := executed.path
  obtain ⟨next, ok, pointer, registers⟩ := execute_ofIntegers program plain executed.registers
  have stepped : m.step program none = .ok { next with steps := m.steps + 1 } := by
    simp only [step, fetched, reached?_none, ok]
  refine ⟨{ next with steps := m.steps + 1 }, ⟨visits ++ [⟨m, i⟩], ?_, ?_⟩, ?_, ?_⟩
  · exact path_append_iff.mpr ⟨m, path, .of_step fetched stepped⟩
  · rw [List.map_append, same]
    rfl
  · rw [List.length_append, ← executed.pointer]
    exact pointer
  · rw [evaluateAll, List.foldl_append]
    exact registers

/-- A program without jumps comes to execute any first part of it. -/
theorem exists_executed (plain : ∀ i ∈ program.instructions, i.opcode.isJump = false)
    {done rest : List Instruction} (split : program.instructions.toList = done ++ rest) :
    ∃ m, Executed program done m := by
  induction done using List.reverseRecOn generalizing rest with
  | nil => exact ⟨start, ⟨[], .nil _, rfl⟩, rfl, rfl⟩
  | append_singleton done i ih =>
    rw [List.append_assoc] at split
    obtain ⟨m, executed⟩ := ih split
    have fetched : program.get? m.pointer = some i := by
      rw [Program.get?, ← Array.getElem?_toList, split, executed.pointer]
      simp
    exact executed.append fetched (plain i (Program.mem_of_get? fetched))

theorem Executed.advance {done : List Instruction} (executed : Executed program done m) :
    start.advance program none done.length = .ok m := by
  obtain ⟨visits, path, same⟩ := executed.path
  rw [← same, List.length_map]
  exact path.advance

theorem Executed.steps {done : List Instruction} (executed : Executed program done m) :
    m.steps = done.length := by
  obtain ⟨visits, path, same⟩ := executed.path
  rw [path.steps, ← same, List.length_map, steps_start, Nat.zero_add]

theorem Executed.flag_of_none {done : List Instruction} (executed : Executed program done m)
    (none : ∀ i ∈ done, i.opcode ≠ .cmp) : m.flag = .eq := by
  obtain ⟨visits, path, same⟩ := executed.path
  refine path.flag_of_none fun v member => none _ ?_
  rw [← same]
  exact List.mem_map_of_mem member

/-- The last comparison was executed by the machine that had executed what stands before it. -/
theorem Executed.flag_of_last {before after : List Instruction} {i : Instruction}
    {left right : Datum} {b : Machine} (executed : Executed program (before ++ i :: after) m)
    (here : Executed program before b) (cmp : i.operation = .cmp left right)
    (none : ∀ j ∈ after, j.opcode ≠ .cmp) :
    m.flag = compare (left.value b.registers) (right.value b.registers) := by
  obtain ⟨visits, path, same⟩ := executed.path
  obtain ⟨others, path', same'⟩ := here.path
  obtain ⟨earlier, rest, rfl, first, second⟩ := List.map_eq_append_iff.mp same
  obtain ⟨v, later, rfl, rfl, third⟩ := List.map_eq_cons_iff.mp second
  have flag := path.flag_of_last cmp fun w member => none _ (third ▸ List.mem_map_of_mem member)
  obtain ⟨middle, begun, ended⟩ := path_append_iff.mp path
  have length : earlier.length = others.length := by
    rw [← List.length_map, first, ← same', List.length_map]
  obtain ⟨_, rfl⟩ := begun.unique path' length
  cases ended with
  | cons _ _ _ => exact flag

/-- **Straight-line arithmetic.** A program without jumps, run from the start, halts after exactly
as many steps as it has instructions and is never refused one. Each register then holds the one
word that is congruent, modulo two to the 64, to what evaluating the instructions in order over the
integers gives for it. The flag is the signed comparison of the words that the sides of the last
comparison had when that was executed, where the registers held the words of what the instructions
before it give, and says equal when there is no comparison. -/
theorem straight_line_exact (plain : ∀ i ∈ program.instructions, i.opcode.isJump = false) :
    ∃ m, start.run program none = some ⟨m, .ok m.registers, ()⟩ ∧
      start.advance program none program.size = .ok m ∧ m.halted program = true ∧
      m.steps = program.size ∧ m.registers.Wraps (evaluateAll program.instructions.toList) ∧
      ((∀ i ∈ program.instructions, i.opcode ≠ .cmp) → m.flag = .eq) ∧
      ∀ before i after left right, program.instructions.toList = before ++ i :: after →
        i.operation = .cmp left right → (∀ j ∈ after, j.opcode ≠ .cmp) →
        ∃ b, start.advance program none before.length = .ok b ∧
          b.registers.Wraps (evaluateAll before) ∧
          m.flag = compare (left.value b.registers).toInt (right.value b.registers).toInt := by
  obtain ⟨m, executed⟩ := exists_executed plain (List.append_nil _).symm
  have halted : m.halted program = true := by
    rw [halted, executed.pointer, Array.length_toList]
    exact decide_eq_true (Nat.le_refl _)
  have ends : Ends program none start m (.ok m.registers) := ⟨_, executed.advance, .halted halted⟩
  refine ⟨m, ends.run_eq, executed.advance, halted, executed.steps, ?_, ?_, ?_⟩
  · rw [executed.registers]
    exact Bank.wraps_ofIntegers _
  · intro none
    exact executed.flag_of_none fun i member => none i (Array.mem_toList_iff.mp member)
  · intro before i after left right split cmp none
    obtain ⟨b, here⟩ := exists_executed plain split
    refine ⟨b, here.advance, ?_, ?_⟩
    · rw [here.registers]
      exact Bank.wraps_ofIntegers _
    · rw [split] at executed
      rw [executed.flag_of_last here cmp none]
      exact compare_toInt _ _

/-- The greatest word, doubled: exactly it is not less than zero, but its word is. -/
theorem straight_line_exact_doubled :
    let calls := [.mov .ax (.literal Int64.maxValue), .inc .ax (.register .ax),
      .cmp (.register .ax) (.literal 0), .dec .bx (.register .ax)]
    let program := (({} : Builder).attemptAll calls).program
    evaluateAll program.instructions.toList .ax = 2 ^ 64 - 2 ∧
      ∃ m, start.run program none = some ⟨m, .ok m.registers, ()⟩ ∧ m.steps = 4 ∧
        m.registers.get .ax = -2 ∧ m.registers.get .bx = 2 ∧ m.flag = .lt := by
  intro calls program
  let plain (operation : Operation) : Instruction := ⟨operation, .empty⟩
  let before := [plain (.mov .ax (.literal Int64.maxValue)), plain (.inc .ax (.register .ax))]
  let compared := plain (.cmp (.register .ax) (.literal 0))
  let after := [plain (.dec .bx (.register .ax))]
  have split : program.instructions.toList = before ++ compared :: after := by cbv
  have jumpless : ∀ i ∈ program.instructions, i.opcode.isJump = false := by
    intro i member
    rw [← Array.mem_toList_iff, split] at member
    revert i
    decide
  obtain ⟨m, carried, _, _, steps, wraps, _, last⟩ := straight_line_exact jumpless
  obtain ⟨b, _, wrapped, flag⟩ := last before compared after _ _ split rfl (by decide)
  rw [split] at wraps ⊢
  have low : b.registers.get .ax = -2 := (wrapped .ax (-2)).mpr (by decide)
  refine ⟨by decide, m, carried, steps, (wraps .ax (-2)).mpr (by decide),
    (wraps .bx 2).mpr (by decide), ?_⟩
  rw [flag, Datum.value, low]
  rfl

end Machine

end QuadAsm
