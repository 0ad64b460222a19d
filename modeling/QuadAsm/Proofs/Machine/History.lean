import QuadAsm.Proofs.Machine.Path
import QuadAsm.Proofs.Machine.Reachable
import QuadAsm.Proofs.Machine.Recurrence

/-! A machine has no history.

Whatever calls are made of a machine, in whatever order, what they leave is settled by the number
on its counter: it is the machine that so many steps from the start lead to
(`Reachable.advance_steps`). So a step before a run does not show in the run's answer
(`callAll_steps_run`), a machine that has halted is left as it is, and behind a reset nothing is
left of what was before. `history_independent` says all of this of any list of calls. -/
namespace QuadAsm.Machine

variable {program : Program} {limit : Option Nat} {m next last : Machine}

/-- The answers to calls made one after the other, and the machine they leave; `none` when one of
them never returns. -/
def callAll (program : Program) (limit : Option Nat) :
    Machine → List Call → Option (List Answer × Machine)
  | m, [] => some ([], m)
  | m, c :: calls =>
    match m.call program limit c with
    | none => none
    | some reply =>
      (callAll program limit reply.machine calls).map fun (answers, last) =>
        (reply.answer :: answers, last)

theorem callAll_cons {c : Call} {reply : Reply} (called : m.call program limit c = some reply)
    (calls : List Call) : m.callAll program limit (c :: calls) =
      (reply.machine.callAll program limit calls).map fun (answers, last) =>
        (reply.answer :: answers, last) := by
  rw [callAll, called]

/-! ### The counter tells the machine -/

/-- Of many steps no more matter than are counted. -/
theorem advance_counted {count : Nat} (h : m.advance program limit count = .ok last) :
    m.steps ≤ last.steps ∧ m.advance program limit (last.steps - m.steps) = .ok last := by
  obtain ⟨visits, path⟩ := exists_path h
  rw [path.steps, Nat.add_sub_cancel_left]
  exact ⟨Nat.le_add_right _ _, path.advance⟩

/-- Steps that a limit lets pass are those made without one. -/
theorem advance_unlimited {count : Nat} (h : m.advance program limit count = .ok last) :
    m.advance program none count = .ok last := by
  induction count generalizing m with
  | zero => exact h
  | succ count ih =>
    obtain ⟨next, stepped, rest⟩ := advance_succ_eq_ok_iff.mp h
    apply advance_succ_eq_ok_iff.mpr
    refine ⟨next, ?_, ih rest⟩
    rcases steps_of_step stepped with ⟨halted, rfl⟩ | ⟨_, free, _⟩
    · exact step_of_halted none halted
    · rw [← step_of_free program free]
      exact stepped

/-- Every reachable machine is where the steps on its counter lead from the start. -/
theorem Reachable.advance_steps (h : Reachable program limit m) :
    Machine.start.advance program limit m.steps = .ok m := by
  induction h with
  | start => rfl
  | @call m c reply _ called ih =>
    by_cases reset : c = .reset
    · subst reset
      cases called
      rfl
    · obtain ⟨count, reached⟩ := advance_of_call called reset
      obtain ⟨le, counted⟩ := advance_counted reached
      rw [← Nat.add_sub_of_le le, advance_add ih]
      exact counted

theorem Reachable.of_callAll {calls : List Call} {answers : List Answer}
    (before : Reachable program limit m)
    (h : m.callAll program limit calls = some (answers, last)) : Reachable program limit last := by
  induction calls generalizing m answers with
  | nil =>
    cases h
    exact before
  | cons c calls ih =>
    cases called : m.call program limit c with
    | none =>
      rw [callAll, called] at h
      cases h
    | some reply =>
      rw [callAll_cons called] at h
      obtain ⟨⟨later, there⟩, rest, same⟩ := Option.map_eq_some_iff.mp h
      cases same
      exact ih (.call before called) rest

/-! ### Runs, and steps before them -/

/-- The answer of a run with this result. -/
def Answer.ofResult : Except Diagnostic Bank → Answer
  | .ok registers => .ran registers
  | .error d => .refused d

/-- A run returns from where it ends, with what it ends with. -/
theorem callAll_run_iff {answered : List Answer × Machine} :
    m.callAll program limit [.run] = some answered ↔
      ∃ last result, Ends program limit m last result ∧ answered = ([.ofResult result], last) := by
  have replied : m.callAll program limit [.run] =
      (m.runLogged program limit).map fun ending => ([.ofResult ending.result], ending.machine) := by
    cases carried : m.runLogged program limit with
    | none => simp [callAll, call, carried]
    | some ending =>
      cases result : ending.result <;> simp [callAll, call, carried, result, Answer.ofResult]
  rw [replied, Option.map_eq_some_iff]
  constructor
  · rintro ⟨ending, carried, rfl⟩
    exact ⟨_, _, ends_of_runFor carried, rfl⟩
  · rintro ⟨last, result, ends, rfl⟩
    obtain ⟨ending, carried, rfl, rfl⟩ :=
      (ends_iff_exists_runWith Array.push #[]).mp ends
    exact ⟨ending, carried, rfl⟩

/-- A machine ends where it ends after one step. -/
theorem ends_step_iff {result : Except Diagnostic Bank} (stepped : m.step program limit = .ok next) :
    Ends program limit m last result ↔ Ends program limit next last result := by
  constructor
  · intro ⟨count, reached, final⟩
    have one : m.advance program limit 1 = .ok next :=
      advance_succ_eq_ok_iff.mpr ⟨next, stepped, rfl⟩
    cases count with
    | zero =>
      cases reached
      have same := final.advance_eq one
      subst same
      exact ⟨0, rfl, final⟩
    | succ count =>
      obtain ⟨other, stepped', rest⟩ := advance_succ_eq_ok_iff.mp reached
      rw [stepped] at stepped'
      cases stepped'
      exact ⟨count, rest, final⟩
  · exact .of_step stepped

/-- A step makes no difference to the run behind it. -/
theorem callAll_run_of_step (stepped : m.step program limit = .ok next) :
    next.callAll program limit [.run] = m.callAll program limit [.run] := by
  apply Option.ext
  intro answered
  simp only [callAll_run_iff, ends_step_iff stepped]

/-- Steps, refused or not, make no difference to the run behind them. -/
theorem callAll_steps_run (program : Program) (limit : Option Nat) (m : Machine) (count : Nat) :
    ∃ stepped : List Answer, stepped.length = count ∧
      m.callAll program limit (List.replicate count .step ++ [.run]) =
        (m.callAll program limit [.run]).map fun (ran, last) => (stepped ++ ran, last) := by
  induction count generalizing m with
  | zero => exact ⟨[], rfl, by simp⟩
  | succ count ih =>
    obtain ⟨reply, called, same⟩ : ∃ reply, m.call program limit .step = some reply ∧
        reply.machine.callAll program limit [.run] = m.callAll program limit [.run] := by
      cases stepped : m.step program limit with
      | ok next =>
        simp only [call, stepped]
        exact ⟨_, rfl, callAll_run_of_step stepped⟩
      | error d =>
        simp only [call, stepped]
        exact ⟨_, rfl, rfl⟩
    obtain ⟨later, length, rest⟩ := ih reply.machine
    refine ⟨reply.answer :: later, by rw [List.length_cons, length], ?_⟩
    rw [List.replicate_succ, List.cons_append, callAll_cons called, rest, same, Option.map_map]
    rfl

/-! ### Calls of a machine that has halted -/

/-- What a machine that has halted answers, unless it is reset. -/
def haltedAnswer (m : Machine) : Call → Answer
  | .run => .ran m.registers
  | _ => .stepped true

theorem call_of_halted (limit : Option Nat) (halted : m.halted program = true) {c : Call} (keeps : c ≠ .reset) :
    ∃ reply, m.call program limit c = some reply ∧ reply.machine = m ∧
      reply.answer = m.haltedAnswer c := by
  have stays := step_of_halted limit halted
  cases c with
  | step =>
    simp only [call, stays, halted]
    exact ⟨_, rfl, rfl, rfl⟩
  | run =>
    have ends : Ends program limit m m (.ok m.registers) := ⟨0, rfl, .halted halted⟩
    obtain ⟨ending, carried, same, result⟩ :=
      (ends_iff_exists_runWith Array.push #[]).mp ends
    have logged : m.runLogged program limit = some ending := carried
    simp only [call, logged, Option.map_some, result]
    exact ⟨_, rfl, same, rfl⟩
  | reset => exact absurd rfl keeps

/-- Where every call but a reset leaves the machine as it is, any number of them do. -/
theorem callAll_of_still {answer : Call → Answer}
    (still : ∀ c, c ≠ .reset → ∃ reply, m.call program limit c = some reply ∧ reply.machine = m ∧
      reply.answer = answer c) {calls : List Call} (keep : .reset ∉ calls) :
    m.callAll program limit calls = some (calls.map answer, m) := by
  induction calls with
  | nil => rfl
  | cons c calls ih =>
    have first : c ≠ .reset := fun reset => keep (reset ▸ List.mem_cons_self)
    have others : .reset ∉ calls := fun member => keep (List.mem_cons_of_mem _ member)
    obtain ⟨reply, called, same, answered⟩ := still c first
    rw [callAll_cons called, same, ih others, answered]
    rfl

theorem callAll_of_halted (halted : m.halted program = true) {calls : List Call}
    (keep : .reset ∉ calls) :
    m.callAll program limit calls = some (calls.map m.haltedAnswer, m) :=
  callAll_of_still (fun _ => call_of_halted limit halted) keep

/-! ### Any calls -/

theorem callAll_reset (program : Program) (limit : Option Nat) (m : Machine) (calls : List Call) :
    m.callAll program limit (.reset :: calls) =
      (start.callAll program limit calls).map fun (answers, last) => (.reset :: answers, last) := by
  have called : m.call program limit .reset = some ⟨.reset, start, #[]⟩ := rfl
  exact callAll_cons called calls

/-- **A machine has no history.** Whatever calls are made from the start, as long as each returns,
the machine they leave is the one that as many steps as it has counted lead to from the start,
none of them refused, under the same limit or under none. So steps before a run change nothing
about what the run answers and leaves, nor whether it returns; a machine that has halted is not
changed by further calls, and a run answers with its registers; and behind a reset all calls are
answered as they are from the start. -/
theorem history_independent {calls : List Call} {answers : List Answer}
    (h : start.callAll program limit calls = some (answers, m)) :
    start.advance program limit m.steps = .ok m ∧
      start.advance program none m.steps = .ok m ∧
      (∀ count, ∃ stepped : List Answer, stepped.length = count ∧
        m.callAll program limit (List.replicate count .step ++ [.run]) =
          (m.callAll program limit [.run]).map fun (ran, last) => (stepped ++ ran, last)) ∧
      (m.halted program = true → ∀ more, .reset ∉ more →
        m.callAll program limit more = some (more.map m.haltedAnswer, m)) ∧
      ∀ more, m.callAll program limit (.reset :: more) =
        (start.callAll program limit more).map fun (answers, last) => (.reset :: answers, last) := by
  have reachable := Reachable.start.of_callAll h
  have counted := reachable.advance_steps
  refine ⟨counted, advance_unlimited counted, callAll_steps_run program limit m, ?_, ?_⟩
  · intro halted more keep
    exact callAll_of_halted halted keep
  · exact callAll_reset program limit m

/-- A loop under a limit: a run it stops, a refused step, and a new start. -/
theorem history_independent_loop :
    let calls := [.label "top", .inc .ax (.literal 1), .jump .always "top"]
    let program := (({} : Builder).attemptAll calls).program
    let stopped : Answer := .refused ((Fault.stepLimit 5).at .empty)
    let m : Machine := { registers := ({} : Bank).set .ax 1, pointer := 1, steps := 1 }
    start.callAll program (some 5) [.step, .run, .step, .reset, .step] =
        some ([.stepped false, stopped, stopped, .reset, .stepped false], m) ∧
      start.advance program none 1 = .ok m := by
  intro calls program stopped m
  have answered : start.callAll program (some 5) [.step, .run, .step, .reset, .step] =
      some ([.stepped false, stopped, stopped, .reset, .stepped false], m) := by cbv
  exact ⟨answered, (history_independent answered).2.1⟩

end QuadAsm.Machine
