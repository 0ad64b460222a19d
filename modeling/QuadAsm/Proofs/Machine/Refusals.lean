import QuadAsm.Proofs.Machine.InPlace

/-! What a refusal leaves behind.

A machine that is refused a step is the machine that was there before it, also when its parts are
written in place, and a step does not look at anything else. So asking again, for a step or for a
run, is refused again, with the same diagnostic (`call_of_refused`), and that goes on until the
machine is reset (`refusals_stick`). -/
namespace QuadAsm.Machine

variable {program : Program} {limit : Option Nat} {m after : Machine} {d : Diagnostic}

/-- What is refused a step is refused every call, but for a reset. -/
theorem call_of_refused (refused : m.step program limit = .error d) {c : Call}
    (keeps : c ≠ .reset) :
    ∃ reply, m.call program limit c = some reply ∧ reply.machine = m ∧
      reply.answer = .refused d := by
  cases c with
  | step =>
    simp only [call, refused]
    exact ⟨_, rfl, rfl, rfl⟩
  | run =>
    have ends : Ends program limit m m (.error d) := ⟨0, rfl, .refused refused⟩
    obtain ⟨ending, carried, same, result⟩ := (ends_iff_exists_runWith Array.push #[]).mp ends
    have logged : m.runLogged program limit = some ending := carried
    simp only [call, logged, Option.map_some, result]
    exact ⟨_, rfl, same, rfl⟩
  | reset => exact absurd rfl keeps

theorem callInPlace_eq_some_iff {c : Call} {answer : Answer} :
    m.callInPlace program limit c = some (answer, after) ↔
      ∃ reply, m.call program limit c = some reply ∧ reply.answer = answer ∧
        reply.machine = after := by
  rw [callInPlace_eq, Option.map_eq_some_iff]
  simp only [Prod.mk.injEq]

/-- **A refusal changes nothing, and stays.** Of any machine whose parts are written in place: a
step that is refused leaves the machine as it was; a run that is refused leaves it where its next
step is, after steps of which each was made and counted; and after any refusal all further calls,
in any number and order, are refused with the same diagnostic and change nothing, until there is a
reset. What calls in place are answered and leave is what calls are answered and leave. -/
theorem refusals_stick (program : Program) (limit : Option Nat) (m : Machine) :
    (∀ d after, m.callInPlace program limit .step = some (.refused d, after) → after = m) ∧
      (∀ d after, m.callInPlace program limit .run = some (.refused d, after) →
        ∃ count, m.advance program limit count = .ok after ∧ after.steps = m.steps + count ∧
          after.callInPlace program limit .step = some (.refused d, after)) ∧
      (∀ c d after, m.callInPlace program limit c = some (.refused d, after) →
        ∀ calls, .reset ∉ calls → after.callAllInPlace program limit calls =
          some (calls.map fun _ => .refused d, after)) ∧
      ∀ calls, m.callAllInPlace program limit calls = m.callAll program limit calls := by
  refine ⟨?_, ?_, ?_, callAllInPlace_eq program limit m⟩
  · intro d after refused
    simp only [callInPlace, stepInPlace_eq] at refused
    cases stepped : m.step program limit with
    | ok next => simp [stepped] at refused
    | error d =>
      simp only [stepped] at refused
      cases refused
      rfl
  · intro d after refused
    obtain ⟨reply, called, answer, rfl⟩ := callInPlace_eq_some_iff.mp refused
    obtain ⟨count, reached⟩ := advance_of_call called (by decide)
    have again := refused_of_call called answer
    refine ⟨count, reached, steps_of_advance reached (running_of_refused again), ?_⟩
    simp only [callInPlace, stepInPlace_eq, again]
  · intro c d after refused calls keep
    obtain ⟨reply, called, answer, rfl⟩ := callInPlace_eq_some_iff.mp refused
    rw [callAllInPlace_eq]
    exact callAll_of_still (fun _ => call_of_refused (refused_of_call called answer)) keep

/-- A run is refused after a step that was made, and so is what comes after it. -/
example :
    let calls := [.mov .ax (.literal 5), .jump .always "nowhere"]
    let program := (({} : Builder).attemptAll calls).program
    let d := (Fault.unresolvedLabel "nowhere").unplaced.locate .empty
    let last : Machine := { registers := ({} : Bank).set .ax 5, pointer := 1, steps := 1 }
    start.callAllInPlace program none [.run, .step, .run] =
      some ([.refused d, .refused d, .refused d], last) := by cbv

end QuadAsm.Machine
