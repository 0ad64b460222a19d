import QuadAsm.Proofs.Machine.History
import QuadAsm.Proofs.Machine.Unresolved

/-! Programs that only jump forward.

Where every declared label points past the jumps to it (`Program.Forward`), each step takes the
pointer further (`Program.Forward.pointer_lt`). So what is left between the pointer and the end of
the program shrinks, and a run is over wherever it starts (`Program.Forward.exists_ends`). The
counter gains one at each of these steps, so from the start it never passes the pointer
(`Trails.step`, and `Trails.advance` for many steps), and the whole run makes no more steps than
the program has instructions (`forward_terminates`). -/
namespace QuadAsm

/-- Each jump whose label is declared stands before the index its label points at. -/
def Program.Forward (program : Program) : Prop :=
  ∀ index i label target, program.get? index = some i → i.target? = some label →
    program.label? label = some target → index < target

theorem Program.forward_iff {program : Program} : program.Forward ↔
    ∀ index : Fin program.size, ∀ label ∈ program.instructions[index].target?,
      ∀ target ∈ program.label? label, index < target := by
  constructor
  · intro forward index label jump target declared
    exact forward index _ label target (Array.getElem?_eq_getElem index.isLt) jump declared
  · intro forward index i label target fetched jump declared
    obtain ⟨inside, rfl⟩ := Array.getElem?_eq_some_iff.mp fetched
    exact forward ⟨index, inside⟩ label jump target declared

instance (program : Program) : Decidable program.Forward := decidable_of_iff' _ Program.forward_iff

variable {program : Program} {limit : Option Nat} {m next last : Machine}

/-! ### Going further -/

/-- A step that is made takes the pointer further. -/
theorem Program.Forward.pointer_lt (forward : program.Forward)
    (running : m.halted program = false) (stepped : m.step program limit = .ok next) :
    m.pointer < next.pointer := by
  cases Machine.Stepped.of_eq stepped with
  | halted ended =>
    rw [Machine.halted_iff.mpr ended] at running
    cases running
  | executed fetched _ done =>
    rcases Machine.execute_pointer done with follows | ⟨label, target, declared⟩
    · rw [follows]
      exact Nat.lt_succ_self _
    · exact forward _ _ label _ fetched target declared

/-- A run has an end, wherever it starts. -/
theorem Program.Forward.exists_ends (forward : program.Forward) (limit : Option Nat) (m : Machine) :
    ∃ last result, Machine.Ends program limit m last result := by
  -- The induction is on what is left of the program from the pointer on.
  generalize left : program.size - m.pointer = distance
  induction distance using Nat.strong_induction_on generalizing m with
  | _ distance ih =>
    cases halted : m.halted program with
    | true => exact ⟨m, _, 0, rfl, .halted halted⟩
    | false =>
      cases stepped : m.step program limit with
      | error d => exact ⟨m, _, 0, rfl, .refused stepped⟩
      | ok next =>
        have further := forward.pointer_lt halted stepped
        have inside := Machine.pointer_lt halted
        obtain ⟨last, result, ends⟩ := ih (program.size - next.pointer) (by omega) next rfl
        exact ⟨last, result, .of_step stepped ends⟩

namespace Machine

/-! ### The counter behind the pointer -/

/-- The counter has not passed the pointer, nor the end of the program. -/
structure Trails (program : Program) (m : Machine) : Prop where
  pointer : m.steps ≤ m.pointer
  size : m.steps ≤ program.size

theorem trails_start : Trails program start := ⟨Nat.le_refl 0, Nat.zero_le _⟩

theorem Trails.step (forward : program.Forward) (trails : Trails program m)
    (stepped : m.step program limit = .ok next) : Trails program next := by
  rcases steps_of_step stepped with ⟨_, rfl⟩ | ⟨running, _, counted⟩
  · exact trails
  · -- The step is made inside the program, whose end the pointer may jump past.
    have behind := trails.pointer
    have inside := Machine.pointer_lt running
    have further := forward.pointer_lt running stepped
    exact ⟨by omega, by omega⟩

theorem Trails.advance (forward : program.Forward) {count : Nat} (trails : Trails program m)
    (reached : m.advance program limit count = .ok last) : Trails program last :=
  advance_keeps (fun trails stepped => trails.step forward stepped) trails reached

/-! ### The whole run -/

/-- Without a limit a run is over at a machine that has halted, or that takes an unresolved
jump. -/
theorem Final.halted_or_unresolved {result : Except Diagnostic Bank}
    (final : Final program none m result) :
    (m.halted program = true ∧ result = .ok m.registers) ∨
      ∃ i label d, TakesUnresolved program none m i label ∧ result = .error d ∧
        d = (Fault.unresolvedLabel label).unplaced.locate i.span ∧ d.kind = .unresolvedLabel := by
  cases final with
  | halted halted => exact .inl ⟨halted, rfl⟩
  | refused refused =>
    have kind := kind_of_refused refused
    obtain ⟨i, label, taken, same⟩ := refused_iff_unresolved.mp ⟨refused, kind⟩
    exact .inr ⟨i, label, _, taken, rfl, same, kind⟩

/-- **Programs that only jump forward terminate.** From the start and without a limit, the run of
such a program is over after no more steps than the program has instructions. Either it has halted,
or it is refused at a jump that is taken and whose label is not declared, for that label. On the
way each step takes the pointer further, and the counter never passes the pointer. -/
theorem forward_terminates (forward : program.Forward) :
    (∃ last result, start.run program none = some ⟨last, result, ()⟩ ∧
      start.advance program none last.steps = .ok last ∧ last.steps ≤ program.size ∧
      ((last.halted program = true ∧ result = .ok last.registers) ∨
        ∃ i label d, TakesUnresolved program none last i label ∧ result = .error d ∧
          d = (Fault.unresolvedLabel label).unplaced.locate i.span ∧
          d.kind = .unresolvedLabel)) ∧
      ∀ count m, start.advance program none count = .ok m → m.steps ≤ m.pointer ∧
        ∀ next, m.halted program = false → m.step program none = .ok next →
          m.pointer < next.pointer := by
  constructor
  · obtain ⟨last, result, count, reached, final⟩ := forward.exists_ends none start
    have counted : start.advance program none last.steps = .ok last := (advance_counted reached).2
    have ends : Ends program none start last result := ⟨count, reached, final⟩
    exact ⟨last, result, ends.run_eq, counted, (trails_start.advance forward reached).size,
      final.halted_or_unresolved⟩
  · intro count m reached
    exact ⟨(trails_start.advance forward reached).pointer, fun next => forward.pointer_lt⟩

/-- The first jump is not taken, and the second goes to the end of the program, past a third whose
label nobody declares. -/
theorem forward_terminates_at_end :
    let calls := [.cmp (.register .ax) (.literal 1), .jump .greater "lost", .jump .less "end",
      .jump .always "lost", .label "end"]
    let program := (({} : Builder).attemptAll calls).program
    let last : Machine := { flag := .lt, pointer := 4, steps := 3 }
    program.Forward ∧ start.run program none = some ⟨last, .ok {}, ()⟩ ∧
      last.steps ≤ program.size ∧ last.steps ≤ last.pointer := by
  intro calls program last
  have forward : program.Forward := by decide
  have reached : start.advance program none 3 = .ok last := by cbv
  have ends : Ends program none start last (.ok {}) := ⟨3, reached, .halted (by cbv)⟩
  obtain ⟨⟨there, result, carried, _, within, _⟩, along⟩ := forward_terminates forward
  obtain ⟨rfl, rfl⟩ := (ends_of_runFor carried).unique ends
  exact ⟨forward, carried, within, (along 3 last reached).1⟩

end Machine

end QuadAsm
