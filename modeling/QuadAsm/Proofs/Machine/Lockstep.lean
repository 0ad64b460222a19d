import QuadAsm.Proofs.Machine.History

/-! Two machines in step.

Two machines, on one program or on two, are alike in some way, and one step leads both to machines
that are alike again, or is refused for both. Then so does any number of steps
(`Lockstep.advance`), a run (`Lockstep.runLogged`) and any list of calls (`Lockstep.callAll`). What
alike means, for machines, for registers and for diagnostics, is left open: `Lockstep` lists all
that is asked of it, and of this list only the step takes an argument. -/
namespace QuadAsm

/-- Two outcomes, with values that `R` relates or diagnostics that `E` relates. -/
inductive Outcomes {α β : Type} (R : α → β → Prop) (E : Diagnostic → Diagnostic → Prop) :
    Except Diagnostic α → Except Diagnostic β → Prop where
  | ok {a : α} {b : β} (related : R a b) : Outcomes R E (.ok a) (.ok b)
  | error {d e : Diagnostic} (related : E d e) : Outcomes R E (.error d) (.error e)

namespace Machine

/-- Two answers that are the same, but for registers that `B` relates and diagnostics that `E`
relates. -/
inductive Answer.Alike (B : Bank → Bank → Prop) (E : Diagnostic → Diagnostic → Prop) :
    Answer → Answer → Prop where
  | stepped (halted : Bool) : Alike B E (.stepped halted) (.stepped halted)
  | ran {a b : Bank} (related : B a b) : Alike B E (.ran a) (.ran b)
  | reset : Alike B E .reset .reset
  | refused {d e : Diagnostic} (related : E d e) : Alike B E (.refused d) (.refused e)

/-- Machines that `R` relates, one on each program, cannot be told apart but by what `B` and `E`
leave open. -/
structure Lockstep (p q : Program) (limit : Option Nat) (R : Machine → Machine → Prop)
    (B : Bank → Bank → Prop) (E : Diagnostic → Diagnostic → Prop) : Prop where
  size : p.size = q.size
  start : R start start
  pointer : ∀ {m n}, R m n → m.pointer = n.pointer
  steps : ∀ {m n}, R m n → m.steps = n.steps
  registers : ∀ {m n}, R m n → B m.registers n.registers
  step : ∀ {m n}, R m n → Outcomes R E (m.step p limit) (n.step q limit)

namespace Lockstep

variable {p q : Program} {limit : Option Nat} {R : Machine → Machine → Prop}
  {B : Bank → Bank → Prop} {E : Diagnostic → Diagnostic → Prop} {m n : Machine}

theorem halted (lock : Lockstep p q limit R B E) (related : R m n) :
    m.halted p = n.halted q := by
  rw [Machine.halted, Machine.halted, lock.size, lock.pointer related]

theorem fuel (lock : Lockstep p q limit R B E) (related : R m n) :
    Machine.fuel p limit m = Machine.fuel q limit n := by
  simp only [Machine.fuel, configurations, lock.size, lock.steps related]

theorem advance (lock : Lockstep p q limit R B E) (related : R m n) (count : Nat) :
    Outcomes R E (m.advance p limit count) (n.advance q limit count) := by
  induction count generalizing m n with
  | zero => exact .ok related
  | succ count ih =>
    have first := lock.step related
    rw [Machine.advance, Machine.advance]
    generalize m.step p limit = here, n.step q limit = there at first
    cases first with
    | ok related => exact ih related
    | error related => exact .error related

/-! ### Calls -/

/-- The runs end at machines that `R` relates, with results that `B` and `E` relate. -/
structure SameEnd (R : Machine → Machine → Prop) (B : Bank → Bank → Prop)
    (E : Diagnostic → Diagnostic → Prop) {α β : Type} (ending : Ending α) (other : Ending β) :
    Prop where
  machine : R ending.machine other.machine
  result : Outcomes B E ending.result other.result

theorem runFor (lock : Lockstep p q limit R B E) (related : R m n) {α β : Type}
    (observe : α → Event → α) (observe' : β → Event → β) (fuel : Nat) (seen : α) (seen' : β) :
    Option.Rel (SameEnd R B E) (m.runFor p limit observe fuel seen)
      (n.runFor q limit observe' fuel seen') := by
  induction fuel generalizing m n seen seen' with
  | zero => exact .none
  | succ fuel ih =>
    have first := lock.step related
    simp only [Machine.runFor]
    generalize m.step p limit = here, n.step q limit = there at first
    cases first with
    | @ok next next' same =>
      simp only [lock.halted same]
      cases next'.halted q with
      | true => exact .some ⟨same, .ok (lock.registers same)⟩
      | false => exact ih same _ _
    | error refused => exact .some ⟨related, .error refused⟩

/-- Whether the two runs end or not, they do so alike; what they log is not compared. -/
theorem runLogged (lock : Lockstep p q limit R B E) (related : R m n) :
    Option.Rel (SameEnd R B E) (m.runLogged p limit) (n.runLogged q limit) := by
  rw [Machine.runLogged, Machine.runLogged, runWith, runWith, lock.fuel related]
  exact lock.runFor related ..

theorem call (lock : Lockstep p q limit R B E) (related : R m n) (c : Call) :
    Option.Rel (fun r s => r.answer.Alike B E s.answer ∧ R r.machine s.machine)
      (m.call p limit c) (n.call q limit c) := by
  cases c with
  | step =>
    have first := lock.step related
    simp only [Machine.call]
    generalize m.step p limit = here, n.step q limit = there at first
    cases first with
    | ok same =>
      simp only [lock.halted same]
      exact .some ⟨.stepped _, same⟩
    | error refused => exact .some ⟨.refused refused, related⟩
  | run =>
    have carried := lock.runLogged related
    simp only [Machine.call]
    generalize m.runLogged p limit = here, n.runLogged q limit = there at carried
    cases carried with
    | none => exact .none
    | @some ending other same =>
      obtain ⟨machine, result⟩ := same
      simp only [Option.map_some]
      generalize ending.result = here, other.result = there at result
      cases result with
      | ok registers => exact .some ⟨.ran registers, machine⟩
      | error refused => exact .some ⟨.refused refused, machine⟩
  | reset => exact .some ⟨.reset, lock.start⟩

theorem callAll (lock : Lockstep p q limit R B E) (related : R m n) (calls : List Call) :
    Option.Rel
      (fun replies others =>
        List.Forall₂ (Answer.Alike B E) replies.1 others.1 ∧ R replies.2 others.2)
      (m.callAll p limit calls) (n.callAll q limit calls) := by
  induction calls generalizing m n with
  | nil => exact .some ⟨.nil, related⟩
  | cons c calls ih =>
    have first := lock.call related c
    rw [Machine.callAll, Machine.callAll]
    generalize m.call p limit c = here, n.call q limit c = there at first
    cases first with
    | none => exact .none
    | @some reply other same =>
      have later := ih same.2
      simp only
      generalize reply.machine.callAll p limit calls = here,
        other.machine.callAll q limit calls = there at later
      cases later with
      | none => exact .none
      | some rest => exact .some ⟨.cons same.1 rest.1, rest.2⟩

end Lockstep

end Machine

end QuadAsm
