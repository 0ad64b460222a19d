import QuadAsm.Proofs.Machine.History

/-! What the flag remembers.

Comparisons set the flag and nothing else does, so along a path the flag is what the last
comparison on it made of two values, as they were then (`Path.flag_of_last`), or what it was before
(`Path.flag_of_none`). A machine that calls lead to has a path behind it, from where it was new or
last reset (`Lived`), and there is only one (`Lived.unique`). So its flag is settled by the last
comparison since then, and with it which jumps it takes (`flag_remembers`). -/
namespace QuadAsm

/-! ### Relations and orders -/

/-- The relation that a condition asks of the two sides of a comparison. -/
def Condition.Relates : Condition → Int → Int → Prop
  | always, _, _ => True
  | equal, a, b => a = b
  | notEqual, a, b => a ≠ b
  | less, a, b => a < b
  | lessOrEqual, a, b => a ≤ b
  | greater, a, b => a > b
  | greaterOrEqual, a, b => a ≥ b

instance (condition : Condition) (a b : Int) : Decidable (condition.Relates a b) :=
  match condition with
  | .always => inferInstanceAs (Decidable True)
  | .equal => inferInstanceAs (Decidable (a = b))
  | .notEqual => inferInstanceAs (Decidable (a ≠ b))
  | .less => inferInstanceAs (Decidable (a < b))
  | .lessOrEqual => inferInstanceAs (Decidable (a ≤ b))
  | .greater => inferInstanceAs (Decidable (a > b))
  | .greaterOrEqual => inferInstanceAs (Decidable (a ≥ b))

theorem Condition.holds_compare_iff {condition : Condition} {a b : Int} :
    condition.holds (compare a b) = true ↔ condition.Relates a b := by
  cases condition with
  | always => simp [holds, Relates]
  | equal => simp [holds, Relates]
  | notEqual => simp [holds, Relates, Ordering.isNe_iff_ne_eq]
  | less => simp [holds, Relates, Std.compare_eq_lt]
  | lessOrEqual => simp [holds, Relates, Std.isLE_compare]
  | greater => simp [holds, Relates, Std.compare_eq_gt]
  | greaterOrEqual => simp [holds, Relates, Std.isGE_compare]

/-- Words are ordered as the numbers they stand for. -/
theorem compare_toInt (a b : Int64) : compare a b = compare a.toInt b.toInt := by
  simp only [compare, compareOfLessAndEq, Int64.lt_iff_toInt_lt, ← Int64.toInt_inj]

namespace Machine

variable {program : Program} {limit : Option Nat} {m next last : Machine}

/-! ### The flag along a path -/

theorem flag_of_cmp {i : Instruction} {left right : Datum}
    (fetched : program.get? m.pointer = some i) (cmp : i.operation = .cmp left right)
    (stepped : m.step program limit = .ok next) :
    next.flag = compare (left.value m.registers) (right.value m.registers) := by
  cases Stepped.of_eq stepped with
  | halted ended =>
    rw [ended] at fetched
    cases fetched
  | executed fetched' _ done =>
    rw [fetched] at fetched'
    cases fetched'
    rw [cmp] at done
    cases done
    rfl

/-- An operation other than a comparison leaves the flag alone. -/
theorem flag_of_execute {operation : Operation} (other : operation.opcode ≠ .cmp)
    (done : m.execute program operation = .ok next) : next.flag = m.flag := by
  cases operation with
  | cmp left right => exact absurd rfl other
  | jump condition label =>
    simp only [execute] at done
    split at done
    · split at done
      · cases done
        rfl
      · cases done
    · cases done
      rfl
  | _ =>
    cases done
    rfl

theorem flag_of_other {i : Instruction} (fetched : program.get? m.pointer = some i)
    (other : i.opcode ≠ .cmp) (stepped : m.step program limit = .ok next) : next.flag = m.flag := by
  cases Stepped.of_eq stepped with
  | halted _ => rfl
  | @executed _ next fetched' _ done =>
    rw [fetched] at fetched'
    cases fetched'
    exact (flag_of_execute other done : next.flag = m.flag)

/-- A path without a comparison leaves the flag alone. -/
theorem Path.flag_of_none {visits : List Visit} (path : Path program limit m visits last)
    (none : ∀ v ∈ visits, v.instruction.opcode ≠ .cmp) : last.flag = m.flag := by
  induction path with
  | nil m => rfl
  | cons fetched stepped _ ih =>
    rw [ih fun v later => none v (List.mem_cons_of_mem _ later)]
    exact flag_of_other fetched (none _ List.mem_cons_self) stepped

/-- The last comparison on a path sets the flag. -/
theorem Path.flag_of_last {earlier later : List Visit} {v : Visit} {left right : Datum}
    (path : Path program limit m (earlier ++ v :: later) last)
    (cmp : v.instruction.operation = .cmp left right)
    (none : ∀ w ∈ later, w.instruction.opcode ≠ .cmp) :
    last.flag = compare (left.value v.machine.registers) (right.value v.machine.registers) := by
  obtain ⟨before, _, rest⟩ := path_append_iff.mp path
  cases rest with
  | cons fetched stepped rest =>
    rw [rest.flag_of_none none]
    exact flag_of_cmp fetched cmp stepped

/-! ### What a machine has behind it -/

/-- A machine that calls lead to, and the steps made since it was new or last reset. -/
inductive Lived (program : Program) (limit : Option Nat) : List Visit → Machine → Prop where
  | start : Lived program limit [] start
  | reset {past : List Visit} {m : Machine} {reply : Reply} (before : Lived program limit past m)
      (called : m.call program limit .reset = some reply) : Lived program limit [] reply.machine
  | call {past made : List Visit} {m : Machine} {c : Call} {reply : Reply}
      (before : Lived program limit past m) (called : m.call program limit c = some reply)
      (advances : c ≠ .reset) (path : Path program limit m made reply.machine) :
      Lived program limit (past ++ made) reply.machine

theorem Reachable.step (before : Reachable program limit m)
    (stepped : m.step program limit = .ok next) : Reachable program limit next := by
  have called : m.call program limit .step =
      some ⟨.stepped (next.halted program), next, (m.event? program limit).toArray⟩ := by
    simp only [Machine.call, stepped]
  exact .call before called

theorem Reachable.exists_lived (reachable : Reachable program limit m) :
    ∃ past, Lived program limit past m := by
  induction reachable with
  | start => exact ⟨[], .start⟩
  | @call m c reply _ called ih =>
    obtain ⟨past, before⟩ := ih
    by_cases reset : c = .reset
    · subst reset
      exact ⟨[], .reset before called⟩
    · obtain ⟨count, reached⟩ := advance_of_call called reset
      obtain ⟨made, path⟩ := exists_path reached
      exact ⟨past ++ made, .call before called reset path⟩

theorem Lived.path {past : List Visit} (lived : Lived program limit past m) :
    Path program limit Machine.start past m := by
  induction lived with
  | start => exact .nil _
  | reset _ called _ =>
    cases called
    exact .nil _
  | call _ _ _ path ih => exact path_append_iff.mpr ⟨_, ih, path⟩

/-- Different calls may have led to a machine, but not by different steps. -/
theorem Lived.unique {past other : List Visit} (lived : Lived program limit past m)
    (lived' : Lived program limit other m) : other = past := by
  have length := lived.path.steps.symm.trans lived'.path.steps
  exact (lived'.path.unique lived.path (by omega)).1

/-! ### Jumps -/

/-- What a jump that is taken comes to. -/
def jumped (program : Program) (m : Machine) (span : Span) (label : String) :
    Except Diagnostic Machine :=
  match program.label? label with
  | some index => .ok { m with pointer := index, steps := m.steps + 1 }
  | none => .error ((Fault.unresolvedLabel label).unplaced.locate span)

/-- What a jump that is not taken comes to. -/
def passed (m : Machine) : Machine := { m with pointer := m.pointer + 1, steps := m.steps + 1 }

theorem step_jump {i : Instruction} {condition : Condition} {label : String}
    (fetched : program.get? m.pointer = some i) (jump : i.operation = .jump condition label)
    (free : m.reached? limit = none) :
    m.step program limit =
      if condition.holds m.flag then m.jumped program i.span label else .ok m.passed := by
  simp only [step, fetched, free, jump, execute, jumped, passed]
  cases condition.holds m.flag with
  | false => rfl
  | true => cases program.label? label <;> rfl

/-- **The flag remembers the last comparison.** A machine that calls lead to has one list of steps
behind it, those made since it was new or last reset. If none of them is a comparison its flag says
that two sides are equal. Otherwise the flag is the signed comparison of the values that the sides
of the last comparison among them had when it was executed, whatever was executed since. So a jump
it comes to is taken just when the condition's relation holds of those two values: then it goes
where the label points, or is refused if that is nowhere, and else on to the next instruction. -/
theorem flag_remembers (reachable : Reachable program limit m) :
    ∃ past, Lived program limit past m ∧ (∀ other, Lived program limit other m → other = past) ∧
      ((∀ v ∈ past, v.instruction.opcode ≠ .cmp) → m.flag = .eq) ∧
      ∀ earlier v later left right, past = earlier ++ v :: later →
        v.instruction.operation = .cmp left right →
        (∀ w ∈ later, w.instruction.opcode ≠ .cmp) →
        let a := (left.value v.machine.registers).toInt
        let b := (right.value v.machine.registers).toInt
        m.flag = compare a b ∧
          ∀ i condition label, program.get? m.pointer = some i →
            i.operation = .jump condition label → m.reached? limit = none →
            m.step program limit =
              if condition.Relates a b then m.jumped program i.span label else .ok m.passed := by
  obtain ⟨past, lived⟩ := reachable.exists_lived
  refine ⟨past, lived, fun _ => lived.unique, lived.path.flag_of_none, ?_⟩
  rintro earlier v later left right rfl cmp none a b
  have flag : m.flag = compare a b := by
    rw [lived.path.flag_of_last cmp none]
    exact compare_toInt _ _
  refine ⟨flag, fun i condition label fetched jump free => ?_⟩
  rw [step_jump fetched jump free, flag]
  simp only [Condition.holds_compare_iff]

/-- The least word is less than the greatest, also when its register has been written since. -/
theorem flag_remembers_overwritten :
    let calls := [.mov .ax (.literal Int64.minValue),
      .cmp (.register .ax) (.literal Int64.maxValue), .mov .ax (.literal Int64.maxValue),
      .jump .less "out", .label "out"]
    let program := (({} : Builder).attemptAll calls).program
    let m : Machine :=
      { registers := ({} : Bank).set .ax Int64.maxValue, flag := .lt, pointer := 3, steps := 3 }
    Reachable program none m ∧ m.flag = compare Int64.minValue.toInt Int64.maxValue.toInt ∧
      m.step program none = m.jumped program .empty "out" := by
  intro calls program m
  let first : Machine :=
    { registers := ({} : Bank).set .ax Int64.minValue, pointer := 1, steps := 1 }
  let second : Machine := { first with flag := .lt, pointer := 2, steps := 2 }
  let v (m : Machine) (operation : Operation) : Visit := ⟨m, ⟨operation, .empty⟩⟩
  let earlier := [v start (.mov .ax (.literal Int64.minValue))]
  let compared := v first (.cmp (.register .ax) (.literal Int64.maxValue))
  let later := [v second (.mov .ax (.literal Int64.maxValue))]
  have one : start.step program none = .ok first := by cbv
  have two : first.step program none = .ok second := by cbv
  have three : second.step program none = .ok m := by cbv
  have path : Path program none start (earlier ++ compared :: later) m :=
    .cons (by cbv) one (.cons (by cbv) two (.of_step (by cbv) three))
  have reachable := ((Reachable.start.step one).step two).step three
  obtain ⟨past, lived, _, _, remembers⟩ := flag_remembers reachable
  have length := lived.path.steps.symm.trans path.steps
  obtain ⟨same, _⟩ := lived.path.unique path (by omega)
  obtain ⟨flag, jumps⟩ := remembers earlier compared later _ _ same rfl (by decide)
  refine ⟨reachable, flag, ?_⟩
  rw [jumps ⟨.jump .less "out", .empty⟩ .less "out" (by cbv) rfl rfl]
  exact if_pos (by decide)

end Machine

end QuadAsm
