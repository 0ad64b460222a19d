import QuadAsm.Proofs.Machine.Lockstep

/-! A register that nobody reads.

Where a program reads a register for nothing but what it writes to this same register
(`Program.Isolates`), the value of the register gets nowhere else: an operation of two machines
that differ in it alone leaves two such machines, or is refused for both (`AgreeBut.execute`). So
the machines go in step, and whoever asks both for steps is given the same answers
(`isolated_register_unnoticed`). -/
namespace QuadAsm

/-- The operation reads the register only where it writes its result there. -/
def Operation.Isolates (r : Register) : Operation → Prop
  | mov destination source => destination ≠ r → source ≠ .register r
  | inc destination source => destination ≠ r → source ≠ .register r
  | dec destination source => destination ≠ r → source ≠ .register r
  | cmp left right => left ≠ .register r ∧ right ≠ .register r
  | jump _ _ => True

instance (r : Register) : (operation : Operation) → Decidable (operation.Isolates r)
  | .mov destination source => inferInstanceAs (Decidable (destination ≠ r → source ≠ .register r))
  | .inc destination source => inferInstanceAs (Decidable (destination ≠ r → source ≠ .register r))
  | .dec destination source => inferInstanceAs (Decidable (destination ≠ r → source ≠ .register r))
  | .cmp left right => inferInstanceAs (Decidable (left ≠ .register r ∧ right ≠ .register r))
  | .jump _ _ => .isTrue trivial

/-- No instruction reads the register but to write its result there. -/
def Program.Isolates (r : Register) (program : Program) : Prop :=
  ∀ i ∈ program.instructions, i.operation.Isolates r

instance (r : Register) (program : Program) : Decidable (program.Isolates r) :=
  inferInstanceAs (Decidable (∀ i ∈ program.instructions, i.operation.Isolates r))

variable {r : Register}

/-! ### Banks that differ in one register -/

/-- The banks agree in every register but perhaps this one. -/
def Bank.AgreeBut (r : Register) (a b : Bank) : Prop := ∀ s, s ≠ r → a.get s = b.get s

theorem Bank.AgreeBut.value {a b : Bank} (same : a.AgreeBut r b) {d : Datum}
    (other : d ≠ .register r) : d.value a = d.value b := by
  cases d with
  | register s => exact same s fun here => other (congrArg Datum.register here)
  | literal value => rfl

/-- Into the one register anything may be written. -/
theorem Bank.AgreeBut.set {a b : Bank} (same : a.AgreeBut r b) {destination : Register}
    {value value' : Int64} (written : destination ≠ r → value = value') :
    (a.set destination value).AgreeBut r (b.set destination value') := by
  intro s other
  rw [get_set, get_set]
  split
  · rename_i here
    exact written (here ▸ other)
  · exact same s other

namespace Machine

variable {program : Program} {limit : Option Nat} {m n : Machine}

/-- The machines are the same but perhaps for the value of this register. -/
structure AgreeBut (r : Register) (m n : Machine) : Prop where
  pointer : m.pointer = n.pointer
  flag : m.flag = n.flag
  steps : m.steps = n.steps
  registers : m.registers.AgreeBut r n.registers

/-! ### One step -/

theorem AgreeBut.write (same : m.AgreeBut r n) {destination : Register} {value value' : Int64}
    (written : destination ≠ r → value = value') :
    (m.write destination value).AgreeBut r (n.write destination value') :=
  ⟨congrArg (· + 1) same.pointer, same.flag, same.steps, same.registers.set written⟩

/-- An operation that isolates the register leaves such machines again, or is refused for both. -/
theorem AgreeBut.execute (same : m.AgreeBut r n) (program : Program) {operation : Operation}
    (isolates : operation.Isolates r) :
    (∃ a b, m.execute program operation = .ok a ∧ n.execute program operation = .ok b ∧
        a.AgreeBut r b) ∨
      ∃ fault, m.execute program operation = .error fault ∧
        n.execute program operation = .error fault := by
  cases operation with
  | mov destination source =>
    refine .inl ⟨_, _, rfl, rfl, same.write fun other => ?_⟩
    exact same.registers.value (isolates other)
  | inc destination source =>
    refine .inl ⟨_, _, rfl, rfl, same.write fun other => ?_⟩
    rw [same.registers destination other, same.registers.value (isolates other)]
  | dec destination source =>
    refine .inl ⟨_, _, rfl, rfl, same.write fun other => ?_⟩
    rw [same.registers destination other, same.registers.value (isolates other)]
  | cmp left right =>
    refine .inl ⟨_, _, rfl, rfl, congrArg (· + 1) same.pointer, ?_, same.steps, same.registers⟩
    rw [same.registers.value isolates.1, same.registers.value isolates.2]
  | jump condition label =>
    simp only [Machine.execute, same.flag]
    split
    · cases program.label? label with
      | none => exact .inr ⟨_, rfl, rfl⟩
      | some index => exact .inl ⟨_, _, rfl, rfl, rfl, rfl, same.steps, same.registers⟩
    · exact .inl ⟨_, _, rfl, rfl, congrArg (· + 1) same.pointer, rfl, same.steps, same.registers⟩

theorem AgreeBut.step (same : m.AgreeBut r n) (isolates : program.Isolates r)
    (limit : Option Nat) :
    Outcomes (AgreeBut r) Eq (m.step program limit) (n.step program limit) := by
  have reached : m.reached? limit = n.reached? limit := by simp only [reached?, same.steps]
  simp only [Machine.step, same.pointer, reached]
  cases fetched : program.get? n.pointer with
  | none => exact .ok same
  | some i =>
    cases n.reached? limit with
    | some bound => exact .error rfl
    | none =>
      rcases same.execute program (isolates i (Program.mem_of_get? fetched)) with
        ⟨a, b, here, there, after⟩ | ⟨fault, here, there⟩
      · simp only [here, there]
        exact .ok ⟨after.pointer, after.flag, congrArg (· + 1) same.steps, after.registers⟩
      · simp only [here, there]
        exact .error rfl

/-! ### Any number of steps, and any calls -/

theorem lockstep_of_isolates (isolates : program.Isolates r) (limit : Option Nat) :
    Lockstep program program limit (AgreeBut r) (Bank.AgreeBut r) Eq where
  size := rfl
  start := ⟨rfl, rfl, rfl, fun _ _ => rfl⟩
  pointer := AgreeBut.pointer
  steps := AgreeBut.steps
  registers := AgreeBut.registers
  step same := same.step isolates limit

/-- Answers to steps show nothing of the registers. -/
theorem AgreeBut.callAll_steps (same : m.AgreeBut r n) (isolates : program.Isolates r)
    (limit : Option Nat) (count : Nat) :
    ∃ answers a b, m.callAll program limit (List.replicate count .step) = some (answers, a) ∧
      n.callAll program limit (List.replicate count .step) = some (answers, b) ∧
        a.AgreeBut r b := by
  induction count generalizing m n with
  | zero => exact ⟨[], m, n, rfl, rfl, same⟩
  | succ count ih =>
    obtain ⟨reply, other, called, called', answer, after⟩ : ∃ reply other,
        m.call program limit .step = some reply ∧ n.call program limit .step = some other ∧
          reply.answer = other.answer ∧ reply.machine.AgreeBut r other.machine := by
      have first := same.step isolates limit
      have halted {a b : Machine} (after : a.AgreeBut r b) : a.halted program = b.halted program :=
        (lockstep_of_isolates isolates limit).halted after
      simp only [Machine.call]
      generalize m.step program limit = here, n.step program limit = there at first
      cases first with
      | ok after => exact ⟨_, _, rfl, rfl, congrArg Answer.stepped (halted after), after⟩
      | error refused => exact ⟨_, _, rfl, rfl, congrArg Answer.refused refused, same⟩
    obtain ⟨answers, a, b, rest, rest', last⟩ := ih after
    rw [List.replicate_succ, callAll_cons called, callAll_cons called', rest, rest', answer]
    exact ⟨_, a, b, rfl, rfl, last⟩

/-- **A register that nobody reads influences nothing else.** Of a program in which no comparison
has the register as an operand, and no operation that writes to another register has it as its
source, two machines are taken that are the same but perhaps for its value. Under any limit they
stay so: any number of steps gets the same answers from both, those that are refused and those at
which they have halted included, and leaves such machines; as many steps that are made lead both to
such machines, or the same diagnostic stops both; and whatever else is called returns for both or
for neither, is answered alike, but for the register's value, and leaves such machines. -/
theorem isolated_register_unnoticed (isolates : program.Isolates r) (limit : Option Nat)
    (same : m.AgreeBut r n) :
    (∀ count, ∃ answers a b,
        m.callAll program limit (List.replicate count .step) = some (answers, a) ∧
          n.callAll program limit (List.replicate count .step) = some (answers, b) ∧
          a.AgreeBut r b ∧ a.halted program = b.halted program) ∧
      (∀ count, Outcomes (AgreeBut r) Eq
        (m.advance program limit count) (n.advance program limit count)) ∧
      ∀ calls, Option.Rel
        (fun replies others => List.Forall₂ (Answer.Alike (Bank.AgreeBut r) Eq) replies.1 others.1 ∧
          replies.2.AgreeBut r others.2)
        (m.callAll program limit calls) (n.callAll program limit calls) := by
  have lock := lockstep_of_isolates isolates limit
  refine ⟨fun count => ?_, lock.advance same, lock.callAll same⟩
  obtain ⟨answers, a, b, here, there, after⟩ := same.callAll_steps isolates limit count
  exact ⟨answers, a, b, here, there, after, lock.halted after⟩

/-- A register that is its own source, and grows by another one, in a loop that goes three times
round whatever the register is worth at first. -/
theorem isolated_register_unnoticed_loop :
    let calls := [.label "top", .inc .dx (.register .dx), .inc .dx (.register .ax),
      .inc .ax (.literal 1), .cmp (.register .ax) (.literal 3), .jump .less "top"]
    let program := (({} : Builder).attemptAll calls).program
    let m : Machine := { registers := ({} : Bank).set .dx 7 }
    let last (value : Int64) : Machine :=
      { registers := (({} : Bank).set .ax 3).set .dx value, pointer := 5, steps := 15 }
    program.Isolates .dx ∧ start.AgreeBut .dx m ∧
      ∃ answers, start.callAll program none (List.replicate 15 .step) = some (answers, last 4) ∧
        m.callAll program none (List.replicate 15 .step) = some (answers, last 60) := by
  intro calls program m last
  have isolates : program.Isolates .dx := by decide
  have same : start.AgreeBut .dx m := by
    refine ⟨rfl, rfl, rfl, fun s other => ?_⟩
    exact (Bank.get_set_ne _ 7 other.symm).symm
  obtain ⟨answers, a, b, here, there, _⟩ := (isolated_register_unnoticed isolates none same).1 15
  let steps : List Answer := List.replicate 14 (.stepped false) ++ [.stepped true]
  have left : start.callAll program none (List.replicate 15 .step) = some (steps, last 4) := by cbv
  have left' : m.callAll program none (List.replicate 15 .step) = some (steps, last 60) := by cbv
  rw [here] at left
  rw [there] at left'
  obtain ⟨_, rfl⟩ := Prod.mk.inj (Option.some.inj left)
  obtain ⟨_, rfl⟩ := Prod.mk.inj (Option.some.inj left')
  exact ⟨isolates, same, answers, here, there⟩

end Machine

end QuadAsm
