import QuadAsm.Proofs.Machine.History

/-! A machine that is changed in place.

`step` makes a new machine, so a step that is refused has nothing to undo. Here the same is asked
of one machine whose parts are written one after the other, a register or the flag first, then the
counter, then the pointer, and what has been written before a refusal stays written. A step in
place nevertheless leaves a machine that it is refused as it was (`stepInPlace_eq`), because
whatever it can be refused for comes before the first write; a run in place keeps the steps before
the refused one (`runInPlace_eq`); and every call gets the answer, and leaves the machine, that it
gets and leaves when machines are made anew (`callInPlace_eq`). -/
namespace QuadAsm.Machine

/-- Work on a machine in place. What was written before a refusal stays written. -/
abbrev InPlace (ε α : Type) := EStateM ε Machine α

/-- Does an operation's work on registers and flag. A jump that is taken answers with the place it
leads to. -/
def executeInPlace (program : Program) : Operation → InPlace Fault (Option Nat)
  | .mov destination source => do
    let value := source.value (← get).registers
    modify fun m => { m with registers := m.registers.set destination value }
    return none
  | .inc destination source => do
    let value := source.value (← get).registers
    modify fun m =>
      { m with registers := m.registers.set destination (m.registers.get destination + value) }
    return none
  | .dec destination source => do
    let value := source.value (← get).registers
    modify fun m =>
      { m with registers := m.registers.set destination (m.registers.get destination - value) }
    return none
  | .cmp left right => do
    let left := left.value (← get).registers
    let right := right.value (← get).registers
    modify fun m => { m with flag := compare left right }
    return none
  | .jump condition label => do
    if condition.holds (← get).flag then
      match program.label? label with
      | some index => return some index
      | none => throw (.unresolvedLabel label)
    else return none

/-- Makes a step and tells whether the machine has halted. -/
def stepInPlace (program : Program) (limit : Option Nat) : InPlace Diagnostic Bool := do
  let m ← get
  match program.get? m.pointer with
  | none => return true
  | some i =>
    match m.reached? limit with
    | some bound => throw (Fault.stepLimit bound |>.at i.span)
    | none =>
      let target ← (executeInPlace program i.operation).adaptExcept fun fault =>
        fault.unplaced.locate i.span
      modify fun m => { m with steps := m.steps + 1 }
      modify fun m => { m with pointer := target.getD (m.pointer + 1) }
      return (← get).halted program

/-- Makes steps until the machine has halted, and then answers with its registers; `none` when that
takes more than `fuel` of them. -/
def runInPlace (program : Program) (limit : Option Nat) : Nat → InPlace Diagnostic (Option Bank)
  | 0 => return none
  | fuel + 1 => do
    if ← stepInPlace program limit then return some (← get).registers
    else runInPlace program limit fuel

/-- Carries out a call in place: the answer and what has become of the machine; `none` for a run
that never ends. -/
def callInPlace (program : Program) (limit : Option Nat) (m : Machine) :
    Call → Option (Answer × Machine)
  | .step =>
    match stepInPlace program limit m with
    | .ok halted after => some (.stepped halted, after)
    | .error d after => some (.refused d, after)
  | .run =>
    match runInPlace program limit (fuel program limit m) m with
    | .ok (some registers) after => some (.ran registers, after)
    | .ok none _ => none
    | .error d after => some (.refused d, after)
  | .reset => some (.reset, start)

/-- The answers to calls carried out in place one after the other, and what has become of the
machine; `none` when one of them never returns. -/
def callAllInPlace (program : Program) (limit : Option Nat) :
    Machine → List Call → Option (List Answer × Machine)
  | m, [] => some ([], m)
  | m, c :: calls =>
    match m.callInPlace program limit c with
    | none => none
    | some (answer, after) =>
      (callAllInPlace program limit after calls).map fun (answers, last) =>
        (answer :: answers, last)

variable {program : Program} {limit : Option Nat} {m next : Machine}

/-! ### Work, piece by piece -/

section Work
variable {ε α β : Type}

theorem bind_of_ok {work : InPlace ε α} {a : α} {after : Machine} (done : work m = .ok a after)
    (rest : α → InPlace ε β) : (work >>= rest) m = rest a after := by
  simp only [bind, EStateM.bind, done]

theorem bind_of_error {work : InPlace ε α} {e : ε} {after : Machine}
    (refused : work m = .error e after) (rest : α → InPlace ε β) : (work >>= rest) m = .error e after := by
  simp only [bind, EStateM.bind, refused]

theorem get_bind (rest : Machine → InPlace ε β) (m : Machine) : (get >>= rest) m = rest m m := rfl

theorem modify_bind (change : Machine → Machine) (rest : PUnit → InPlace ε β) (m : Machine) :
    (modify change >>= rest) m = rest ⟨⟩ (change m) := rfl

end Work

/-! ### One step -/

theorem executeInPlace_jump (program : Program) (m : Machine) (condition : Condition)
    (label : String) : executeInPlace program (.jump condition label) m =
      if condition.holds m.flag then
        match program.label? label with
        | some index => .ok (some index) m
        | none => .error (.unresolvedLabel label) m
      else .ok none m := by
  simp only [executeInPlace, get_bind]
  cases condition.holds m.flag with
  | false => rfl
  | true => cases program.label? label <;> rfl

/-- An operation that is executed writes registers and flag, and answers with what the pointer is
to be. -/
theorem executeInPlace_of_ok {operation : Operation}
    (done : m.execute program operation = .ok next) :
    ∃ target : Option Nat, target.getD (m.pointer + 1) = next.pointer ∧
      executeInPlace program operation m =
        .ok target { m with registers := next.registers, flag := next.flag } := by
  cases operation with
  | jump condition label =>
    rw [executeInPlace_jump]
    simp only [execute] at done
    cases taken : condition.holds m.flag with
    | false =>
      simp only [taken] at done
      cases done
      exact ⟨none, rfl, rfl⟩
    | true =>
      simp only [taken, if_true] at done
      cases declared : program.label? label with
      | none => simp only [declared, reduceCtorEq] at done
      | some index =>
        simp only [declared] at done
        cases done
        exact ⟨some index, rfl, rfl⟩
  | _ =>
    cases done
    exact ⟨none, rfl, rfl⟩

/-- An operation that is refused has done no work. -/
theorem executeInPlace_of_error {operation : Operation} {fault : Fault}
    (refused : m.execute program operation = .error fault) :
    executeInPlace program operation m = .error fault m := by
  obtain ⟨condition, label, rfl, taken, undeclared, rfl⟩ := execute_eq_error_iff.mp refused
  rw [executeInPlace_jump, if_pos taken, undeclared]

/-- A step in place leaves the machine that the step makes, or the machine as it was. -/
theorem stepInPlace_eq (program : Program) (limit : Option Nat) (m : Machine) :
    stepInPlace program limit m =
      match m.step program limit with
      | .ok next => .ok (next.halted program) next
      | .error d => .error d m := by
  rw [stepInPlace, get_bind]
  cases fetched : program.get? m.pointer with
  | none =>
    have halted : m.halted program = true := halted_iff.mpr fetched
    simp only [step_of_halted limit halted, halted]
    rfl
  | some i =>
    simp only [step, fetched]
    cases m.reached? limit with
    | some bound => rfl
    | none =>
      cases done : m.execute program i.operation with
      | error fault =>
        refine bind_of_error ?_ _
        simp only [EStateM.adaptExcept, executeInPlace_of_error done]
      | ok next =>
        obtain ⟨target, leads, written⟩ := executeInPlace_of_ok done
        have worked : (executeInPlace program i.operation).adaptExcept
            (fun fault => fault.unplaced.locate i.span) m =
              .ok target { m with registers := next.registers, flag := next.flag } := by
          simp only [EStateM.adaptExcept, written]
        simp only [bind_of_ok worked, modify_bind, get_bind, leads]
        rfl

/-! ### Whole runs, and calls -/

/-- A run in place comes to the registers that the run ends with, or to the diagnostic it is refused
with, and leaves the machine that the run leaves. -/
theorem runInPlace_eq {σ : Type} (program : Program) (limit : Option Nat) (observe : σ → Event → σ)
    (fuel : Nat) (m : Machine) (seen : σ) :
    match runFor program limit observe fuel m seen with
    | none => ∃ after, runInPlace program limit fuel m = .ok none after
    | some ending => runInPlace program limit fuel m =
        match ending.result with
        | .ok registers => .ok (some registers) ending.machine
        | .error d => .error d ending.machine := by
  induction fuel generalizing m seen with
  | zero => exact ⟨m, rfl⟩
  | succ fuel ih =>
    have first := stepInPlace_eq program limit m
    simp only [runFor, runInPlace, bind, EStateM.bind]
    cases stepped : m.step program limit with
    | error d => simp only [first, stepped]
    | ok next =>
      simp only [first, stepped]
      cases halted : next.halted program with
      | true => rfl
      | false => exact ih next _

/-- A call in place gets the answer that the call gets, and leaves the machine that it leaves. -/
theorem callInPlace_eq (program : Program) (limit : Option Nat) (m : Machine) (c : Call) :
    m.callInPlace program limit c =
      (m.call program limit c).map fun reply => (reply.answer, reply.machine) := by
  cases c with
  | step =>
    simp only [callInPlace, call, stepInPlace_eq]
    cases m.step program limit <;> rfl
  | run =>
    have inPlace := runInPlace_eq program limit Array.push (fuel program limit m) m
      (#[].push (.runStarted program.size m.pointer))
    simp only [callInPlace, call]
    cases carried : m.runLogged program limit with
    | none =>
      simp only [show runFor _ _ _ _ _ _ = none from carried] at inPlace
      obtain ⟨after, inPlace⟩ := inPlace
      simp only [inPlace, Option.map_none]
    | some ending =>
      simp only [show runFor _ _ _ _ _ _ = some ending from carried] at inPlace
      simp only [inPlace, Option.map_some]
      cases ending.result <;> rfl
  | reset => rfl

theorem callAllInPlace_eq (program : Program) (limit : Option Nat) (m : Machine)
    (calls : List Call) : m.callAllInPlace program limit calls = m.callAll program limit calls := by
  induction calls generalizing m with
  | nil => rfl
  | cons c calls ih =>
    simp only [callAllInPlace, callAll, callInPlace_eq]
    cases m.call program limit c with
    | none => rfl
    | some reply => simp only [Option.map_some, ih]

end QuadAsm.Machine
