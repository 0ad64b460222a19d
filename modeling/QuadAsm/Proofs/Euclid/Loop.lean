import QuadAsm.Proofs.Machine.Comparison
import QuadAsm.Proofs.Machine.Recurrence

/-! Greatest common divisors by subtraction.

Two registers hold a positive number each, and the larger one is made smaller by the other one until
they are the same. One round of the loop does this once (`Carries.round`): it keeps the greatest
common divisor of the two, and makes their sum smaller (`gcd_reduce`, `sum_reduce`). So a machine at
the head of the loop halts, with that divisor in both registers (`Carries.ends`). No number grows, so
that words never wrap around and are compared as the numbers they hold. All of this is about any
program that carries the operations and the labels, wherever they were written. -/
namespace QuadAsm

/-- The operation that an entry is, if it is one. -/
def Entry.operation? : Entry → Option Operation
  | label _ => none
  | instruction i => some i.operation

namespace Euclid

open Machine

variable {a b x y : Nat} {program : Program} {m : Machine}

/-! ### One subtraction -/

/-- Two numbers, the larger one made smaller by the other one. -/
def reduce (x y : Nat) : Nat × Nat := if y < x then (x - y, y) else (x, y - x)

theorem gcd_reduce (x y : Nat) : (reduce x y).1.gcd (reduce x y).2 = x.gcd y := by
  unfold reduce
  split
  · exact Nat.gcd_sub_self_left (by omega)
  · exact Nat.gcd_sub_self_right (by omega)

theorem sum_reduce (left : 0 < x) (right : 0 < y) : (reduce x y).1 + (reduce x y).2 < x + y := by
  unfold reduce
  split <;> dsimp only <;> omega

/-! ### The program -/

/-- The program for two numbers, operations and labels in the order in which they are recorded. -/
def entries (a b : Nat) : List Entry :=
  let record operation := Entry.instruction ⟨operation, .empty⟩
  [record (.mov .ax (.literal (.ofNat a))),
    record (.mov .bx (.literal (.ofNat b))),
    .label "loop",
    record (.cmp (.register .ax) (.register .bx)),
    record (.jump .equal "done"),
    record (.jump .greater "reduce_a"),
    record (.dec .bx (.register .ax)),
    record (.jump .always "loop"),
    .label "reduce_a",
    record (.dec .ax (.register .bx)),
    record (.jump .always "loop"),
    .label "done"]

/-- The operations alone, in the order of their indexes. -/
def operations (a b : Nat) : List Operation := (entries a b).filterMap Entry.operation?

/-- The program has these operations, and its labels point at the head of the loop, at the
subtraction from the first register and past the end. -/
structure Carries (a b : Nat) (program : Program) : Prop where
  operations : program.instructions.toList.map Instruction.operation = operations a b
  loop : program.label? "loop" = some 2
  reduce_a : program.label? "reduce_a" = some 7
  done : program.label? "done" = some 9

/-- The registers with two numbers in the first two of them. -/
def bank (x y : Nat) : Bank := { ax := .ofNat x, bx := .ofNat y }

/-- At the head of the loop, with two positive numbers that registers can hold. -/
structure AtLoop (x y : Nat) (m : Machine) : Prop where
  pointer : m.pointer = 2
  registers : m.registers = bank x y
  left_pos : 0 < x
  right_pos : 0 < y
  left_lt : x < 2 ^ 63
  right_lt : y < 2 ^ 63

/-- A step executes the operation that the pointer is at. -/
theorem Carries.step (carries : Carries a b program) {operation : Operation} {registers : Bank}
    {flag : Flag} {pointer : Nat} (here : (Euclid.operations a b)[m.pointer]? = some operation)
    (executed : m.execute program operation = .ok ⟨registers, flag, pointer, m.steps⟩) :
    m.step program none = .ok ⟨registers, flag, pointer, m.steps + 1⟩ := by
  rw [← carries.operations, List.getElem?_map, Array.getElem?_toList] at here
  obtain ⟨i, fetched, rfl⟩ := Option.map_eq_some_iff.mp here
  simp only [Machine.step, Program.get?, fetched, reached?_none, executed]

theorem Carries.halted (carries : Carries a b program) (past : m.pointer = 9) :
    m.halted program = true := by
  have size := congrArg List.length carries.operations
  rw [List.length_map, Array.length_toList] at size
  rw [Machine.halted, Program.size, size, past]
  rfl

/-! ### Words that hold numbers -/

theorem compare_ofNat (left : x < 2 ^ 63) (right : y < 2 ^ 63) :
    compare (Int64.ofNat x) (Int64.ofNat y) = compare x y := by
  rw [compare_toInt, Int64.toInt_ofNat_of_lt left, Int64.toInt_ofNat_of_lt right]
  simp only [compare, compareOfLessAndEq, Int.ofNat_lt, Int.ofNat_inj]

theorem bank_dec_ax (le : y ≤ x) :
    (bank x y).set .ax ((bank x y).get .ax - (bank x y).get .bx) = bank (x - y) y := by
  simp only [bank, Bank.set, Bank.get, Int64.ofNat_sub x y le]

theorem bank_dec_bx (le : x ≤ y) :
    (bank x y).set .bx ((bank x y).get .bx - (bank x y).get .ax) = bank x (y - x) := by
  simp only [bank, Bank.set, Bank.get, Int64.ofNat_sub y x le]

/-! ### One round -/

/-- The numbers are compared, and the machine comes to the first of the two jumps behind that. -/
theorem Carries.compared (carries : Carries a b program) (here : AtLoop x y m) :
    m.step program none = .ok ⟨bank x y, compare x y, 3, m.steps + 1⟩ := by
  have fetched : (Euclid.operations a b)[m.pointer]? =
      some (.cmp (.register .ax) (.register .bx)) := by
    rw [here.pointer]
    rfl
  have flag := compare_ofNat here.left_lt here.right_lt
  refine carries.step fetched ?_
  simp only [execute, Datum.value, here.registers, here.pointer, bank, Bank.get, flag]

/-- A round goes from the head of the loop back there, in five steps, and subtracts once. -/
theorem Carries.round (carries : Carries a b program) (here : AtLoop x y m) (apart : x ≠ y) :
    ∃ next, m.advance program none 5 = .ok next ∧
      AtLoop (reduce x y).1 (reduce x y).2 next := by
  let steps := m.steps
  have first := carries.compared here
  obtain ⟨-, -, left_pos, right_pos, left_lt, right_lt⟩ := here
  rcases Nat.lt_or_gt_of_ne apart with less | greater
  · rw [Nat.compare_eq_lt.mpr less] at first
    have subtracted : execute program ⟨bank x y, .lt, 5, steps + 3⟩ (.dec .bx (.register .ax)) =
        .ok ⟨bank x (y - x), .lt, 6, steps + 3⟩ := by
      simp only [execute, Datum.value, write, bank_dec_bx (Nat.le_of_lt less)]
    refine ⟨⟨bank x (y - x), .lt, 2, steps + 5⟩, ?_, ?_⟩
    · calc m.advance program none 5
          = advance program none 4 ⟨bank x y, .lt, 3, steps + 1⟩ := advance_of_step first
        _ = advance program none 3 ⟨bank x y, .lt, 4, steps + 2⟩ :=
            advance_of_step (carries.step rfl rfl)
        _ = advance program none 2 ⟨bank x y, .lt, 5, steps + 3⟩ :=
            advance_of_step (carries.step rfl rfl)
        _ = advance program none 1 ⟨bank x (y - x), .lt, 6, steps + 4⟩ :=
            advance_of_step (carries.step rfl subtracted)
        _ = .ok ⟨bank x (y - x), .lt, 2, steps + 5⟩ :=
            advance_of_step (carries.step rfl (execute_taken carries.loop rfl))
    · rw [reduce, if_neg (Nat.not_lt_of_lt less)]
      exact ⟨rfl, rfl, left_pos, Nat.sub_pos_of_lt less, left_lt,
        Nat.lt_of_le_of_lt (Nat.sub_le y x) right_lt⟩
  · rw [Nat.compare_eq_gt.mpr greater] at first
    have subtracted : execute program ⟨bank x y, .gt, 7, steps + 3⟩ (.dec .ax (.register .bx)) =
        .ok ⟨bank (x - y) y, .gt, 8, steps + 3⟩ := by
      simp only [execute, Datum.value, write, bank_dec_ax (Nat.le_of_lt greater)]
    refine ⟨⟨bank (x - y) y, .gt, 2, steps + 5⟩, ?_, ?_⟩
    · calc m.advance program none 5
          = advance program none 4 ⟨bank x y, .gt, 3, steps + 1⟩ := advance_of_step first
        _ = advance program none 3 ⟨bank x y, .gt, 4, steps + 2⟩ :=
            advance_of_step (carries.step rfl rfl)
        _ = advance program none 2 ⟨bank x y, .gt, 7, steps + 3⟩ :=
            advance_of_step (carries.step rfl (execute_taken carries.reduce_a rfl))
        _ = advance program none 1 ⟨bank (x - y) y, .gt, 8, steps + 4⟩ :=
            advance_of_step (carries.step rfl subtracted)
        _ = .ok ⟨bank (x - y) y, .gt, 2, steps + 5⟩ :=
            advance_of_step (carries.step rfl (execute_taken carries.loop rfl))
    · rw [reduce, if_pos greater]
      exact ⟨rfl, rfl, Nat.sub_pos_of_lt greater, right_pos,
        Nat.lt_of_le_of_lt (Nat.sub_le x y) left_lt, right_lt⟩

/-! ### All rounds -/

/-- Where the two numbers are the same, the machine goes to the end. -/
theorem Carries.ends_of_same (carries : Carries a b program) (here : AtLoop x x m) :
    ∃ last, Ends program none m last (.ok (bank x x)) := by
  have first := carries.compared here
  rw [Nat.compare_eq_eq.mpr rfl] at first
  let last : Machine := ⟨bank x x, .eq, 9, m.steps + 2⟩
  have reached : m.advance program none 2 = .ok last := by
    calc m.advance program none 2
        = advance program none 1 ⟨bank x x, .eq, 3, m.steps + 1⟩ := advance_of_step first
      _ = .ok last := advance_of_step (carries.step rfl (execute_taken carries.done rfl))
  exact ⟨last, 2, reached, .halted (carries.halted rfl)⟩

/-- From the head of the loop a machine halts, with the greatest common divisor in both registers. -/
theorem Carries.ends (carries : Carries a b program) (here : AtLoop x y m) :
    ∃ last, Ends program none m last (.ok (bank (x.gcd y) (x.gcd y))) := by
  -- The sum of the two numbers bounds the rounds that are left.
  induction sum : x + y using Nat.strong_induction_on generalizing x y m with
  | h n ih =>
    by_cases same : x = y
    · subst same
      rw [Nat.gcd_self]
      exact carries.ends_of_same here
    · obtain ⟨next, reached, again⟩ := carries.round here same
      have smaller := sum_reduce here.left_pos here.right_pos
      obtain ⟨last, ends⟩ := ih _ (sum ▸ smaller) again rfl
      rw [gcd_reduce] at ends
      exact ⟨last, .of_advance reached ends⟩

/-- The two numbers are loaded, and the machine comes to the head of the loop. -/
theorem Carries.loads (carries : Carries a b program) (a_pos : 0 < a) (b_pos : 0 < b)
    (a_lt : a < 2 ^ 63) (b_lt : b < 2 ^ 63) :
    ∃ m, start.advance program none 2 = .ok m ∧ AtLoop a b m := by
  refine ⟨⟨bank a b, .eq, 2, 2⟩, ?_, rfl, rfl, a_pos, b_pos, a_lt, b_lt⟩
  calc start.advance program none 2
      = advance program none 1 ⟨bank a 0, .eq, 1, 1⟩ := advance_of_step (carries.step rfl rfl)
    _ = .ok ⟨bank a b, .eq, 2, 2⟩ := advance_of_step (carries.step rfl rfl)

/-- The program ends, with the greatest common divisor of its numbers in both registers. -/
theorem Carries.run (carries : Carries a b program) (a_pos : 0 < a) (b_pos : 0 < b)
    (a_lt : a < 2 ^ 63) (b_lt : b < 2 ^ 63) :
    program.run none = some (.ok (bank (a.gcd b) (a.gcd b))) := by
  obtain ⟨m, reached, here⟩ := carries.loads a_pos b_pos a_lt b_lt
  obtain ⟨last, ends⟩ := carries.ends here
  rw [Program.run, (Ends.of_advance reached ends).run_eq]
  rfl

end Euclid

end QuadAsm
