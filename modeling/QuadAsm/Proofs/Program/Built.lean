import QuadAsm.Assembly

/-! Programs as they come to be.

However a program is made, by calls to a builder of which any may be refused, from the
statements of a token list or from a text, it is made of entries recorded one after the
other (`Built.recorded`). What an entry keeps therefore holds of every program; so no label
points further than just past the last instruction (`Built.bounded`). -/
namespace QuadAsm

namespace Builder

/-- The builder with these entries, the first recorded first. -/
def recordAll (b : Builder) (entries : List Entry) : Builder := entries.foldl record b

/-- Calls leave what the entries of those that are not refused leave. -/
theorem attemptAll_eq_recordAll (b : Builder) (calls : List Call) :
    b.attemptAll calls = b.recordAll (calls.filterMap (·.entry.toOption)) := by
  induction calls generalizing b with
  | nil => rfl
  | cons c calls ih =>
    rw [attemptAll, List.foldl_cons, ← attemptAll, ih, List.filterMap_cons]
    cases accepted : c.entry with
    | ok entry => simp only [attempt, accepted, Except.toOption, recordAll, List.foldl_cons]
    | error d => simp only [attempt, accepted, Except.toOption]

end Builder

/-- A program that comes of statements is made of entries behind what the builder had. -/
theorem Assembly.recorded_of_ofCursor {b : Builder} {c : Cursor} {program : Program}
    (h : (ofCursor b c).result = .ok program) :
    ∃ entries, program = (b.recordAll entries).program := by
  fun_induction ofCursor b c with
  | case1 b c _ =>
    cases h
    exact ⟨[], rfl⟩
  | case2 b c item _ entry _ ih =>
    obtain ⟨entries, rfl⟩ := ih h
    exact ⟨entry :: entries, rfl⟩
  | case3 => cases h

namespace Program

/-- The ways to a program. -/
inductive Built : Program → Prop where
  | calls (calls : List Builder.Call) : Built (({} : Builder).attemptAll calls).program
  | tokens {tokens : List Token} {program : Program}
      (parsed : (Assembly.ofCursor {} (.ofTokens tokens)).result = .ok program) : Built program
  | source {source : String} {program : Program} (assembled : assemble source = .ok program) :
      Built program

/-- Every way records entries. -/
theorem Built.recorded {program : Program} (built : program.Built) :
    ∃ entries, program = (({} : Builder).recordAll entries).program := by
  cases built with
  | calls calls => exact ⟨_, congrArg _ (Builder.attemptAll_eq_recordAll {} calls)⟩
  | tokens parsed => exact Assembly.recorded_of_ofCursor parsed
  | source assembled =>
    rw [assemble, Assembly.ofSource] at assembled
    split at assembled
    · exact Assembly.recorded_of_ofCursor assembled
    · cases assembled

/-- What the empty program has and every entry keeps, every program has. -/
theorem Built.induct {motive : Program → Prop} {program : Program} (built : program.Built)
    (empty : motive {})
    (record : ∀ (b : Builder) entry, motive b.program → motive (b.record entry).program) :
    motive program := by
  have kept (entries : List Entry) (b : Builder) (h : motive b.program) :
      motive (b.recordAll entries).program := by
    induction entries generalizing b with
    | nil => exact h
    | cons entry entries ih => exact ih _ (record b entry h)
  obtain ⟨entries, rfl⟩ := built.recorded
  exact kept entries {} empty

/-! ### Where labels point -/

/-- No label points past the end of the program. -/
def Bounded (program : Program) : Prop :=
  ∀ name index, program.label? name = some index → index ≤ program.size

theorem bounded_empty : Bounded {} := by
  intro name index h
  simp [label?] at h

/-- An entry keeps the bound: a label points at the present end, and an instruction only
moves the end on. -/
theorem Bounded.record {b : Builder} (bounded : b.program.Bounded) (entry : Entry) :
    (b.record entry).program.Bounded := by
  intro name index h
  cases entry with
  | label declared =>
    rw [Builder.label?_record_label] at h
    split at h
    · cases h
      exact Nat.le_refl _
    · exact bounded name index h
  | instruction i =>
    rw [Builder.label?_record_instruction] at h
    rw [Builder.size_record_instruction]
    exact Nat.le_succ_of_le (bounded name index h)

theorem Built.bounded {program : Program} (built : program.Built) : program.Bounded :=
  built.induct bounded_empty fun _ entry bounded => bounded.record entry

end Program

end QuadAsm
