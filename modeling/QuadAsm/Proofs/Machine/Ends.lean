import QuadAsm.Machine.Run
import QuadAsm.Proofs.Machine.Advance

/-! Where a run ends.

A run is over at a machine that has halted or is refused its next step (`Final`). Since
steps leave no choice there is at most one such machine to come to (`Ends.unique`), and it
is where every run that is carried out ends (`ends_of_runFor`). Under a limit every run is
over within the steps the limit leaves (`exists_runWith`), so there `Ends` says all there
is to say about it (`ends_iff`). -/
namespace QuadAsm.Machine

/-- A machine at which a run is over, with the run's result. -/
inductive Final (program : Program) (limit : Option Nat) (m : Machine) :
    Except Diagnostic Bank → Prop where
  | halted (halted : m.halted program = true) : Final program limit m (.ok m.registers)
  | refused {d : Diagnostic} (refused : m.step program limit = .error d) :
      Final program limit m (.error d)

/-- The run of `m` is over at `last`. -/
def Ends (program : Program) (limit : Option Nat) (m last : Machine)
    (result : Except Diagnostic Bank) : Prop :=
  ∃ count, m.advance program limit count = .ok last ∧ Final program limit last result

variable {program : Program} {limit : Option Nat} {m last : Machine}
  {result : Except Diagnostic Bank}

/-! ### One end -/

theorem Final.unique {other : Except Diagnostic Bank} (h : Final program limit m result)
    (h' : Final program limit m other) : result = other := by
  cases h with
  | halted halted =>
    cases h' with
    | halted _ => rfl
    | refused refused =>
      rw [step_of_halted limit halted] at refused
      cases refused
  | refused refused =>
    cases h' with
    | halted halted =>
      rw [step_of_halted limit halted] at refused
      cases refused
    | refused refused' => rw [refused] at refused'; cases refused'; rfl

/-- From the end of a run there is nowhere to go. -/
theorem Final.advance_eq {count : Nat} {further : Machine} (h : Final program limit m result)
    (reached : m.advance program limit count = .ok further) : further = m := by
  cases count with
  | zero =>
    cases reached
    rfl
  | succ count =>
    cases h with
    | halted halted =>
      rw [advance_of_halted halted] at reached
      cases reached
      rfl
    | refused refused =>
      obtain ⟨next, stepped, _⟩ := advance_succ_eq_ok_iff.mp reached
      rw [refused] at stepped
      cases stepped

theorem Ends.unique {other : Machine} {result' : Except Diagnostic Bank}
    (h : Ends program limit m last result) (h' : Ends program limit m other result') :
    last = other ∧ result = result' := by
  obtain ⟨a, reached, final⟩ := h
  obtain ⟨b, reached', final'⟩ := h'
  have same : last = other := by
    rcases Nat.le_total a b with le | le
    · rw [← Nat.add_sub_of_le le, advance_add reached] at reached'
      exact (final.advance_eq reached').symm
    · rw [← Nat.add_sub_of_le le, advance_add reached'] at reached
      exact final'.advance_eq reached
  subst same
  exact ⟨rfl, final.unique final'⟩

/-- What a machine further on ends with. -/
theorem Ends.of_advance {count : Nat} {further : Machine}
    (reached : m.advance program limit count = .ok further)
    (h : Ends program limit further last result) : Ends program limit m last result := by
  obtain ⟨more, made, final⟩ := h
  exact ⟨count + more, (advance_add reached).trans made, final⟩

/-- What the machine after the first step ends with. -/
theorem Ends.of_step {next : Machine} (stepped : m.step program limit = .ok next)
    (h : Ends program limit next last result) : Ends program limit m last result := by
  have one : m.advance program limit 1 = .ok next := advance_of_step stepped
  exact .of_advance one h

/-! ### Runs that are carried out -/

section Runs
variable {σ : Type} {observe : σ → Event → σ}

/-- A run that is over ended where it had to. -/
theorem ends_of_runFor {fuel : Nat} {seen : σ} {ending : Ending σ}
    (h : runFor program limit observe fuel m seen = some ending) :
    Ends program limit m ending.machine ending.result := by
  induction fuel generalizing m seen with
  | zero => cases h
  | succ fuel ih =>
    simp only [runFor] at h
    split at h
    · cases h
      exact ⟨0, rfl, .refused (by assumption)⟩
    · rename_i next stepped
      split at h
      · cases h
        exact .of_step stepped ⟨0, rfl, .halted (by assumption)⟩
      · exact .of_step stepped (ih h)

/-- A step that the limit leaves room for is made with fuel to spare. -/
theorem exists_runFor {bound fuel : Nat} (some_fuel : 0 < fuel) (enough : bound < m.steps + fuel)
    (seen : σ) : ∃ ending, runFor program (some bound) observe fuel m seen = some ending := by
  induction fuel generalizing m seen with
  | zero => cases some_fuel
  | succ fuel ih =>
    simp only [runFor]
    split
    · exact ⟨_, rfl⟩
    · rename_i next stepped
      split
      · exact ⟨_, rfl⟩
      · rename_i running
        rcases steps_of_step stepped with ⟨halted, rfl⟩ | ⟨_, free, counted⟩
        · exact absurd halted running
        · have short := reached?_eq_none_iff.mp free bound rfl
          exact ih (by omega) (by omega) _

theorem exists_runWith (program : Program) (bound : Nat) (observe : σ → Event → σ) (m : Machine)
    (seen : σ) : ∃ ending, m.runWith program (some bound) observe seen = some ending := by
  have enough : bound < m.steps + fuel program (some bound) m := by
    simp only [fuel]
    omega
  exact exists_runFor (Nat.succ_pos _) enough _

/-- Under a limit a run has an end, which is where it is carried out to. -/
theorem ends_iff {bound : Nat} {seen : σ} {ending : Ending σ}
    (h : m.runWith program (some bound) observe seen = some ending) :
    Ends program (some bound) m last result ↔ ending.machine = last ∧ ending.result = result := by
  constructor
  · exact (ends_of_runFor h).unique
  · rintro ⟨rfl, rfl⟩
    exact ends_of_runFor h

end Runs

/-- The end of a program's run under a limit is its result. -/
theorem run_of_ends {bound : Nat} (h : Ends program (some bound) start last result) :
    program.run (some bound) = some result := by
  obtain ⟨ending, carried⟩ := exists_runWith program bound (fun _ _ => ()) start ()
  obtain ⟨_, rfl⟩ := (ends_iff carried).mp h
  exact congrArg (Option.map Ending.result) carried

end QuadAsm.Machine
