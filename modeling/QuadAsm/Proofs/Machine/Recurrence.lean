import Mathlib.Data.FinEnum
import Mathlib.Data.Fintype.Pigeonhole
import Mathlib.Data.Fintype.Prod
import Mathlib.Tactic.Choose
import QuadAsm.Proofs.Machine.Embedding
import QuadAsm.Proofs.Machine.Limit

/-! Runs that never end.

A step looks at the pointer, the flag and the registers alone, and a running machine has
`configurations` of these at most. So a machine that still runs after as many steps has come
back to where it was (`recurs_of_advance`), and a machine that comes back goes round for ever
(`Recurs.endless`). This is what the fuel of a run is made for: a run that is carried out is one
that ends, and a run that is given up never does (`runWith_eq_none_iff`,
`ends_iff_exists_runWith`). A run from the start therefore never ends just when it comes back, and
no limit is large enough for it then (`divergence_exact`). -/
namespace QuadAsm.Machine

variable {program : Program} {limit : Option Nat} {m last : Machine}
  {result : Except Diagnostic Bank}

/-- The machine still runs after any number of steps. -/
def Endless (program : Program) (limit : Option Nat) (m : Machine) : Prop :=
  ∀ count, ∃ last, m.advance program limit count = .ok last ∧ last.halted program = false

/-! ### Steps before others -/

theorem advance_split {a b : Nat} (h : m.advance program limit (a + b) = .ok last) :
    ∃ middle, m.advance program limit a = .ok middle ∧
      middle.advance program limit b = .ok last := by
  induction a generalizing m with
  | zero => exact ⟨m, rfl, by rwa [Nat.zero_add] at h⟩
  | succ a ih =>
    rw [Nat.add_right_comm] at h
    obtain ⟨next, stepped, rest⟩ := advance_succ_eq_ok_iff.mp h
    obtain ⟨middle, first, second⟩ := ih rest
    exact ⟨middle, advance_succ_eq_ok_iff.mpr ⟨next, stepped, first⟩, second⟩

/-- A machine that runs has run before. -/
theorem running_before {a count : Nat} (h : m.advance program limit count = .ok last)
    (running : last.halted program = false) (le : a ≤ count) :
    ∃ middle, m.advance program limit a = .ok middle ∧ middle.halted program = false := by
  rw [← Nat.add_sub_of_le le] at h
  obtain ⟨middle, first, second⟩ := advance_split h
  refine ⟨middle, first, ?_⟩
  cases halted : middle.halted program with
  | false => rfl
  | true =>
    rw [advance_of_halted halted] at second
    cases second
    rw [halted] at running
    cases running

theorem Endless.of_advance {count : Nat} (reached : m.advance program limit count = .ok last)
    (endless : Endless program limit last) : Endless program limit m := by
  intro more
  obtain ⟨far, further, running⟩ := endless more
  rw [← advance_add reached] at further
  exact running_before further running (Nat.le_add_left more count)

/-- What never ends has no end. -/
theorem Endless.not_ends (endless : Endless program limit m) : ¬Ends program limit m last result := by
  intro ⟨count, reached, final⟩
  obtain ⟨there, same, running⟩ := endless (count + 1)
  rw [advance_add reached] at same
  have stays := final.advance_eq same
  subst stays
  cases final with
  | halted halted =>
    rw [halted] at running
    cases running
  | refused refused =>
    obtain ⟨_, stepped, _⟩ := advance_succ_eq_ok_iff.mp same
    rw [refused] at stepped
    cases stepped

/-! ### Going round -/

theorem further_zero (m : Machine) : m.further 0 0 = m := rfl

/-- A machine that comes back to its configuration does so again and again. -/
theorem advance_round {period : Nat}
    (round : m.advance program none period = .ok (m.further 0 period)) (times : Nat) :
    m.advance program none (times * period) = .ok (m.further 0 (times * period)) := by
  induction times with
  | zero => rw [Nat.zero_mul, further_zero, advance]
  | succ times ih =>
    have again := (Program.Embeds.refl program).advance (times * period) round rfl
    rw [further_further, Nat.add_zero, Nat.add_comm period] at again
    rw [Nat.succ_mul, advance_add ih]
    exact again

theorem endless_of_round {period : Nat} (positive : 0 < period) (running : m.halted program = false)
    (round : m.advance program none period = .ok (m.further 0 period)) :
    Endless program none m := by
  intro count
  have rounds := advance_round round count
  have runs : (m.further 0 (count * period)).halted program = false := by
    rw [← running]
    exact halted_further _ m rfl
  exact running_before rounds runs (Nat.le_mul_of_pos_right count positive)

/-! ### Configurations -/

/-- All that a step of a running machine looks at: the pointer, the flag and the registers. -/
abbrev Configuration (program : Program) : Type :=
  Fin program.size × Flag × Int64 × Int64 × Int64 × Int64

theorem card_configuration (program : Program) :
    Fintype.card (Configuration program) = configurations program := by
  have words : Fintype.card Int64 = UInt64.size := FinEnum.card_eq_fintypeCard.symm
  have flags : Fintype.card Flag = 3 := rfl
  simp only [Fintype.card_prod, Fintype.card_fin, words, flags, configurations, Nat.mul_assoc]

theorem pointer_lt (running : m.halted program = false) : m.pointer < program.size := by
  simpa [halted] using running

def configuration (m : Machine) (running : m.halted program = false) : Configuration program :=
  (⟨m.pointer, pointer_lt running⟩, m.flag, m.registers.ax, m.registers.bx, m.registers.cx,
    m.registers.dx)

theorem eq_of_configuration {other : Machine} {running : m.halted program = false}
    {running' : other.halted program = false}
    (same : m.configuration running = other.configuration running') :
    m.pointer = other.pointer ∧ m.flag = other.flag ∧ m.registers = other.registers := by
  obtain ⟨⟨_, _, _, _⟩, _, _, _⟩ := m
  obtain ⟨⟨_, _, _, _⟩, _, _, _⟩ := other
  simp only [configuration, Prod.mk.injEq, Fin.mk.injEq] at same
  obtain ⟨rfl, rfl, rfl, rfl, rfl, rfl⟩ := same
  exact ⟨rfl, rfl, rfl⟩

/-- Machines with one pointer, one flag and one bank differ in their counters alone. -/
theorem eq_further {other : Machine} {count : Nat} (pointer : m.pointer = other.pointer)
    (flag : m.flag = other.flag) (registers : m.registers = other.registers)
    (counted : other.steps = m.steps + count) : other = m.further 0 count := by
  obtain ⟨_, _, _, _⟩ := m
  obtain ⟨_, _, _, _⟩ := other
  cases pointer
  cases flag
  cases registers
  cases counted
  rfl

/-- Two different numbers of steps, all of them made, lead to one pointer, one flag and one bank of
registers. -/
def Recurs (program : Program) (m : Machine) : Prop :=
  ∃ (i j : Nat) (a b : Machine), i < j ∧
    m.advance program none i = .ok a ∧ a.steps = m.steps + i ∧
    m.advance program none j = .ok b ∧ b.steps = m.steps + j ∧
    a.pointer = b.pointer ∧ a.flag = b.flag ∧ a.registers = b.registers

/-- A machine that runs longer than it has configurations comes back to one of them. -/
theorem recurs_of_advance
    (reached : m.advance program none (configurations program) = .ok last)
    (running : last.halted program = false) : Recurs program m := by
  have before (k : Fin (configurations program + 1)) :=
    running_before reached running (Nat.le_of_lt_succ k.isLt)
  choose visited arrives runs using before
  -- One machine more than there are configurations: two of them share one.
  have more : Fintype.card (Configuration program) <
      Fintype.card (Fin (configurations program + 1)) := by
    rw [card_configuration, Fintype.card_fin]
    exact Nat.lt_succ_self _
  obtain ⟨i, j, distinct, same⟩ := Fintype.exists_ne_map_eq_of_card_lt
    (fun k => (visited k).configuration (runs k)) more
  have ordered (i j : Fin (configurations program + 1)) (lt : i < j)
      (same : (visited i).configuration (runs i) = (visited j).configuration (runs j)) :
      Recurs program m :=
    ⟨i, j, visited i, visited j, lt, arrives i, steps_of_advance (arrives i) (runs i), arrives j,
      steps_of_advance (arrives j) (runs j), eq_of_configuration same⟩
  rcases lt_or_gt_of_ne distinct with lt | gt
  · exact ordered i j lt same
  · exact ordered j i gt same.symm

/-- A machine that comes back never ends. -/
theorem Recurs.endless (h : Recurs program m) : Endless program none m := by
  obtain ⟨i, j, a, b, lt, first, made, second, made', pointer, flag, registers⟩ := h
  have later : b = a.further 0 (j - i) := eq_further pointer flag registers (by omega)
  have round : a.advance program none (j - i) = .ok (a.further 0 (j - i)) := by
    rw [← later, ← advance_add first, Nat.add_sub_of_le (Nat.le_of_lt lt)]
    exact second
  -- A machine that has halted makes no more steps, so it would have counted `i` of them only.
  have running : a.halted program = false := by
    refine Bool.eq_false_iff.mpr fun halted => ?_
    rw [advance_of_halted halted, ← later] at round
    cases round
    omega
  exact .of_advance first (endless_of_round (Nat.sub_pos_of_lt lt) running round)

theorem endless_iff_recurs : Endless program none m ↔ Recurs program m := by
  constructor
  · intro endless
    obtain ⟨last, reached, running⟩ := endless (configurations program)
    exact recurs_of_advance reached running
  · exact Recurs.endless

/-! ### Fuel -/

section Runs
variable {σ : Type} {observe : σ → Event → σ}

/-- A run that is given up still runs then. -/
theorem running_of_runFor {fuel : Nat} {seen : σ}
    (h : runFor program limit observe (fuel + 1) m seen = none) :
    ∃ last, m.advance program limit (fuel + 1) = .ok last ∧ last.halted program = false := by
  induction fuel generalizing m seen with
  | zero =>
    simp only [runFor] at h
    split at h
    · cases h
    · rename_i next stepped
      by_cases halted : next.halted program = true
      · simp [halted] at h
      · exact ⟨next, advance_succ_eq_ok_iff.mpr ⟨next, stepped, rfl⟩,
          Bool.eq_false_of_not_eq_true halted⟩
  | succ fuel ih =>
    rw [runFor] at h
    split at h
    · cases h
    · rename_i next stepped
      split at h
      · cases h
      · obtain ⟨last, reached, running⟩ := ih h
        exact ⟨last, advance_succ_eq_ok_iff.mpr ⟨next, stepped, reached⟩, running⟩

/-- A run is given up just when it never ends. -/
theorem runWith_eq_none_iff {seen : σ} :
    m.runWith program limit observe seen = none ↔ Endless program limit m := by
  constructor
  · intro given_up
    cases limit with
    | some bound =>
      obtain ⟨ending, carried⟩ := exists_runWith program bound observe m seen
      rw [given_up] at carried
      cases carried
    | none =>
      obtain ⟨last, reached, running⟩ := running_of_runFor given_up
      obtain ⟨middle, before, runs⟩ :=
        running_before reached running (Nat.le_succ (configurations program))
      exact (recurs_of_advance before runs).endless
  · intro endless
    cases carried : m.runWith program limit observe seen with
    | none => rfl
    | some ending => exact absurd (ends_of_runFor carried) endless.not_ends

/-- A run is carried out to its end, if it has one. -/
theorem ends_iff_exists_runWith (observe : σ → Event → σ) (seen : σ) :
    Ends program limit m last result ↔ ∃ ending,
      m.runWith program limit observe seen = some ending ∧ ending.machine = last ∧
        ending.result = result := by
  constructor
  · intro ends
    cases carried : m.runWith program limit observe seen with
    | none => exact absurd ends (runWith_eq_none_iff.mp carried).not_ends
    | some ending =>
      obtain ⟨same, result⟩ := (ends_of_runFor carried).unique ends
      exact ⟨ending, rfl, same, result⟩
  · rintro ⟨ending, carried, rfl, rfl⟩
    exact ends_of_runFor carried

/-- What has an end is carried out to it. -/
theorem Ends.run_eq (ends : Ends program limit m last result) :
    m.run program limit = some ⟨last, result, ()⟩ := by
  obtain ⟨ending, carried, rfl, rfl⟩ := (ends_iff_exists_runWith (fun _ _ => ()) ()).mp ends
  exact carried

theorem endless_iff_forall_not_ends :
    Endless program limit m ↔ ∀ last result, ¬Ends program limit m last result := by
  constructor
  · exact fun endless _ _ => endless.not_ends
  · intro never
    have given_up : m.run program limit = none := by
      apply Option.eq_none_iff_forall_ne_some.mpr
      intro ending carried
      exact never _ _ (ends_of_runFor carried)
    exact runWith_eq_none_iff.mp given_up

end Runs

/-! ### From the start -/

theorem run_eq_none_iff : program.run none = none ↔ Endless program none start :=
  Option.map_eq_none_iff.trans runWith_eq_none_iff

/-- However large a limit is, it stops a run that never ends. -/
theorem Endless.limited (endless : Endless program none start) (bound : Nat) :
    ∃ d, program.run (some bound) = some (.error d) ∧ d.fault = .stepLimit bound := by
  obtain ⟨last, reached, running⟩ := endless bound
  obtain ⟨i, fetched⟩ := running_iff.mp running
  exact ⟨_, run_of_ends (LimitedEnd.limited (Nat.zero_add bound) reached fetched).ends, rfl⟩

/-- **Divergence is recurrence.** From the start and without a limit, a machine makes any number of
steps and still runs, which is to say that it neither halts nor is refused a step, just when after
two different numbers of steps its pointer, its flag and its registers are the same. Then its run
has no result, and under each limit, however large, the run is refused for that limit. -/
theorem divergence_exact (program : Program) :
    (Endless program none start ↔ ∀ last result, ¬Ends program none start last result) ∧
      (Endless program none start ↔ ∃ i j a b, i < j ∧
        start.advance program none i = .ok a ∧ a.steps = i ∧
        start.advance program none j = .ok b ∧ b.steps = j ∧
        a.pointer = b.pointer ∧ a.flag = b.flag ∧ a.registers = b.registers) ∧
      (Endless program none start ↔ program.run none = none) ∧
      (Endless program none start → ∀ limit, ∃ d, program.run (some limit) = some (.error d) ∧
        d.fault = .stepLimit limit ∧ d.kind = .stepLimit) := by
  refine ⟨endless_iff_forall_not_ends, ?_, run_eq_none_iff.symm, fun endless limit => ?_⟩
  · rw [endless_iff_recurs, Recurs]
    simp only [steps_start, Nat.zero_add]
  · obtain ⟨d, result, fault⟩ := endless.limited limit
    exact ⟨d, result, fault, by rw [Diagnostic.kind, fault]; rfl⟩

end QuadAsm.Machine
