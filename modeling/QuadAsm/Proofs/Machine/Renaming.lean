import QuadAsm.Proofs.Machine.Lockstep
import QuadAsm.Proofs.Machine.Unresolved

/-! Labels are only names.

A taken jump looks its label up and goes where that points; nothing else is ever done with a name.
So two programs whose jumps are to the same places, whatever these are called (`Program.Renamed`),
cannot be told apart by running them: a step does the same on both (`Program.Renamed.step`), so
they go in step whatever is called (`Program.Renamed.sameRuns`). Only a refusal for an undeclared
label tells the name that was looked up. Other names for all labels, and a table without those that
no jump is to, are two ways to such a program (`labels_only_names`). -/
namespace QuadAsm

/-! ### Programs that differ in names -/

/-- The operations are the same, or jumps under one condition, to labels that point at one place in
the two programs or at none in both. -/
inductive Operation.Renamed (p q : Program) : Operation → Operation → Prop where
  | same {operation : Operation} (plain : operation.target? = none) :
      Renamed p q operation operation
  | jump {condition : Condition} {label other : String} (points : p.label? label = q.label? other) :
      Renamed p q (.jump condition label) (.jump condition other)

/-- The operation with another name for its label. -/
def Operation.rename (f : String → String) : Operation → Operation
  | jump condition label => jump condition (f label)
  | operation => operation

/-- The programs have as many instructions, at the same places, with operations that are the same
but for the names of labels. -/
structure Program.Renamed (p q : Program) : Prop where
  size : p.size = q.size
  instructions : ∀ index i j, p.get? index = some i → q.get? index = some j →
    i.span = j.span ∧ Operation.Renamed p q i.operation j.operation

/-- The diagnostics are the same, or for an undeclared label at one place. -/
structure Diagnostic.Renamed (d e : Diagnostic) : Prop where
  span : d.span? = e.span?
  fault : d.fault = e.fault ∨
    ∃ label other, d.fault = .unresolvedLabel label ∧ e.fault = .unresolvedLabel other

theorem Diagnostic.Renamed.refl (d : Diagnostic) : d.Renamed d := ⟨rfl, .inl rfl⟩

theorem Diagnostic.Renamed.locate (label other : String) (span : Span) :
    ((Fault.unresolvedLabel label).unplaced.locate span).Renamed
      ((Fault.unresolvedLabel other).unplaced.locate span) := by
  refine ⟨?_, .inr ⟨label, other, fault_locate .., fault_locate ..⟩⟩
  simp only [Diagnostic.locate, Fault.unplaced]
  split <;> rfl

/-- The outcomes are the same, or diagnostics that are but for a name. -/
inductive SameOutcome {α : Type} : Except Diagnostic α → Except Diagnostic α → Prop where
  | ok (a : α) : SameOutcome (.ok a) (.ok a)
  | error {d e : Diagnostic} (renamed : d.Renamed e) : SameOutcome (.error d) (.error e)

theorem SameOutcome.refl {α : Type} (result : Except Diagnostic α) : SameOutcome result result := by
  cases result with
  | ok a => exact .ok a
  | error d => exact .error (.refl d)

theorem SameOutcome.iff_outcomes {α : Type} {a b : Except Diagnostic α} :
    SameOutcome a b ↔ Outcomes Eq Diagnostic.Renamed a b := by
  constructor
  · rintro (a | renamed)
    · exact .ok rfl
    · exact .error renamed
  · rintro (rfl | renamed)
    · exact .ok _
    · exact .error renamed

/-- The answers are the same, or refusals with diagnostics that are but for a name. -/
inductive Machine.Answer.Renamed : Answer → Answer → Prop where
  | same (answer : Answer) : Renamed answer answer
  | refused {d e : Diagnostic} (renamed : d.Renamed e) : Renamed (.refused d) (.refused e)

theorem Machine.Answer.Renamed.of_alike {a b : Answer} (h : a.Alike Eq Diagnostic.Renamed b) :
    a.Renamed b := by
  cases h with
  | stepped halted => exact .same _
  | ran same => exact same ▸ .same _
  | reset => exact .same _
  | refused renamed => exact .refused renamed

/-! ### Steps -/

/-- An operation comes to the same on both programs, or is refused for its label on both. -/
theorem Operation.Renamed.execute {p q : Program} {a b : Operation}
    (renamed : Operation.Renamed p q a b) (m : Machine) :
    m.execute p a = m.execute q b ∨ ∃ label other,
      m.execute p a = .error (.unresolvedLabel label) ∧
        m.execute q b = .error (.unresolvedLabel other) := by
  cases renamed with
  | same plain =>
    left
    cases a with
    | jump condition label => cases plain
    | _ => rfl
  | @jump condition label other points =>
    simp only [Machine.execute, points]
    by_cases taken : condition.holds m.flag = true
    · cases q.label? other with
      | some index => exact .inl rfl
      | none =>
        simp only [taken, if_true]
        exact .inr ⟨label, other, rfl, rfl⟩
    · simp only [taken]
      exact .inl rfl

namespace Program

open Machine

variable {p q : Program} {limit : Option Nat}

/-- There is an instruction in both programs or in neither. -/
theorem Renamed.fetch (renamed : p.Renamed q) (index : Nat) :
    (p.get? index = none ∧ q.get? index = none) ∨ ∃ i j, p.get? index = some i ∧
      q.get? index = some j ∧ i.span = j.span ∧ Operation.Renamed p q i.operation j.operation := by
  cases here : p.get? index with
  | none =>
    rw [get?_eq_none_iff, renamed.size, ← get?_eq_none_iff] at here
    exact .inl ⟨rfl, here⟩
  | some i =>
    have inside : q.get? index ≠ none := by
      rw [ne_eq, get?_eq_none_iff, ← renamed.size, ← get?_eq_none_iff, here]
      exact nofun
    obtain ⟨j, there⟩ := Option.ne_none_iff_exists'.mp inside
    exact .inr ⟨i, j, rfl, there, renamed.instructions index i j here there⟩

theorem Renamed.step (renamed : p.Renamed q) (limit : Option Nat) (m : Machine) :
    SameOutcome (m.step p limit) (m.step q limit) := by
  rcases renamed.fetch m.pointer with ⟨here, there⟩ | ⟨i, j, here, there, span, operation⟩
  · simp only [Machine.step, here, there]
    exact .refl _
  · simp only [Machine.step, here, there, span]
    cases m.reached? limit with
    | some bound => exact .refl _
    | none =>
      rcases operation.execute m with same | ⟨label, other, refused, refused'⟩
      · simp only [same]
        exact .refl _
      · simp only [refused, refused']
        exact .error (.locate label other j.span)

/-! ### Calls -/

/-- The calls leave one machine, with answers that are the same but for names. -/
def SameReplies (replies others : List Answer × Machine) : Prop :=
  List.Forall₂ Answer.Renamed replies.1 others.1 ∧ replies.2 = others.2

theorem Renamed.lockstep (renamed : p.Renamed q) (limit : Option Nat) :
    Lockstep p q limit Eq Eq Diagnostic.Renamed where
  size := renamed.size
  start := rfl
  pointer same := congrArg Machine.pointer same
  steps same := congrArg Machine.steps same
  registers same := congrArg Machine.registers same
  step := by
    rintro m _ rfl
    exact SameOutcome.iff_outcomes.mp (renamed.step limit m)

theorem SameReplies.of_alike {replies others : List Answer × Machine}
    (h : List.Forall₂ (Answer.Alike Eq Diagnostic.Renamed) replies.1 others.1 ∧
      replies.2 = others.2) : SameReplies replies others :=
  ⟨h.1.imp fun _ _ alike => .of_alike alike, h.2⟩

/-- From any machine and under this limit the two programs do the same but for names: after any
number of steps, and in answer to any calls. -/
structure SameRuns (limit : Option Nat) (p q : Program) : Prop where
  steps : ∀ (m : Machine) count, SameOutcome (m.advance p limit count) (m.advance q limit count)
  calls : ∀ (m : Machine) calls,
    Option.Rel SameReplies (m.callAll p limit calls) (m.callAll q limit calls)

theorem Renamed.sameRuns (renamed : p.Renamed q) (limit : Option Nat) : SameRuns limit p q where
  steps _ count := SameOutcome.iff_outcomes.mpr ((renamed.lockstep limit).advance rfl count)
  calls m calls := by
    have same := (renamed.lockstep limit).callAll (rfl : m = m) calls
    generalize m.callAll p limit calls = here, m.callAll q limit calls = there at same
    cases same with
    | none => exact .none
    | some replies => exact .some (.of_alike replies)

/-! ### Other names -/

/-- The names that are declared or that a jump is to. -/
def names (p : Program) : Set String :=
  {name | (∃ index, p.label? name = some index) ∨ ∃ i ∈ p.instructions, i.target? = some name}

/-- The program with other names for all labels. -/
def rename (f : String → String) (p : Program) : Program where
  instructions := p.instructions.map fun i => { i with operation := i.operation.rename f }
  labels := .ofList (p.labels.toList.map fun (name, index) => (f name, index))

theorem label?_rename {f : String → String} (apart : Set.InjOn f p.names) {name : String}
    (known : name ∈ p.names) : (p.rename f).label? (f name) = p.label? name := by
  have declared {entry : String × Nat} (member : entry ∈ p.labels.toList) : entry.1 ∈ p.names :=
    .inl ⟨entry.2, Std.ExtTreeMap.mem_toList_iff_getElem?_eq_some.mp member⟩
  cases points : p.label? name with
  | some index =>
    apply Std.ExtTreeMap.getElem?_ofList_of_mem Std.ReflCmp.compare_self
    · refine List.pairwise_map.mpr ((Std.ExtTreeMap.distinct_keys_toList).imp_of_mem ?_)
      intro a b here there distinct same
      have one := apart (declared here) (declared there) (Std.LawfulEqCmp.eq_of_compare same)
      exact distinct (one ▸ Std.ReflCmp.compare_self)
    · exact List.mem_map_of_mem (Std.ExtTreeMap.mem_toList_iff_getElem?_eq_some.mpr points)
  | none =>
    apply Std.ExtTreeMap.getElem?_ofList_of_contains_eq_false
    rw [← Bool.not_eq_true, List.contains_iff_mem, List.map_map, List.mem_map]
    rintro ⟨⟨other, index⟩, member, same⟩
    have one : other = name := apart (declared member) known same
    subst one
    have there := Std.ExtTreeMap.mem_toList_iff_getElem?_eq_some.mp member
    cases points.symm.trans there

theorem renamed_rename {f : String → String} (apart : Set.InjOn f p.names) :
    p.Renamed (p.rename f) := by
  refine ⟨by simp [size, rename], fun index i j here there => ?_⟩
  have same : (p.rename f).get? index =
      some { i with operation := i.operation.rename f } := by
    show (p.instructions.map _)[index]? = _
    rw [Array.getElem?_map, show p.instructions[index]? = some i from here]
    rfl
  cases same.symm.trans there
  refine ⟨rfl, ?_⟩
  cases jump : i.operation with
  | jump condition label =>
    have known : label ∈ p.names := by
      refine .inr ⟨i, mem_of_get? here, ?_⟩
      rw [Instruction.target?, jump]
      rfl
    exact .jump (label?_rename apart known).symm
  | _ => exact .same rfl

/-! ### Fewer names -/

/-- The program with only some of its labels declared. -/
def keeping (keep : String → Bool) (p : Program) : Program :=
  { p with labels := p.labels.filter fun name _ => keep name }

theorem label?_keeping {keep : String → Bool} {name : String} (kept : keep name = true) :
    (p.keeping keep).label? name = p.label? name := by
  show (p.labels.filter _)[name]? = p.labels[name]?
  rw [Std.ExtTreeMap.getElem?_filter']
  cases p.labels[name]? with
  | none => rfl
  | some index => exact Option.filter_some_pos kept

theorem renamed_keeping {keep : String → Bool}
    (kept : ∀ i ∈ p.instructions, ∀ name, i.target? = some name → keep name = true) :
    p.Renamed (p.keeping keep) := by
  refine ⟨rfl, fun index i j here there => ?_⟩
  cases here.symm.trans there
  refine ⟨rfl, ?_⟩
  cases target : i.operation.target? with
  | none => exact .same target
  | some name =>
    obtain ⟨condition, jump⟩ := Operation.target?_eq_some_iff.mp target
    rw [jump]
    exact .jump (label?_keeping (kept i (mem_of_get? here) name target)).symm

/-- **Labels are only names.** Programs of as many instructions, at the same places, which are the
same but for the names that jumps go by, where each jump is to one place in both programs or to
none in both, do the same under any limit: from any machine, as many steps lead to one machine or
are refused, and any calls return or do not, leave one machine, and are answered alike; only a
refusal for an undeclared label tells the name in use. So it is with other names for all labels,
and with a table from which labels are gone that no jump is to. -/
theorem labels_only_names (p : Program) (limit : Option Nat) :
    (∀ q, p.Renamed q → SameRuns limit p q) ∧
      (∀ f, Set.InjOn f p.names → SameRuns limit p (p.rename f)) ∧
      ∀ keep, (∀ i ∈ p.instructions, ∀ name, i.target? = some name → keep name = true) →
        SameRuns limit p (p.keeping keep) := by
  refine ⟨fun q renamed => renamed.sameRuns limit, fun f apart => ?_, fun keep kept => ?_⟩
  · exact (renamed_rename apart).sameRuns limit
  · exact (renamed_keeping kept).sameRuns limit

/-- Two names change places, and a jump out of a loop is refused for the other one. -/
theorem labels_only_names_swap :
    let calls := [.label "up", .inc .ax (.literal 1), .cmp (.register .ax) (.literal 2),
      .jump .less "up", .jump .always "out"]
    let program := (({} : Builder).attemptAll calls).program
    let swap := Equiv.swap "up" "out"
    let stopped (name : String) : Answer := .refused (Fault.unresolvedLabel name).unplaced
    let m : Machine := { registers := ({} : Bank).set .ax 2, pointer := 3, steps := 6 }
    start.callAll program none [.run, .step] = some ([stopped "out", stopped "out"], m) ∧
      start.callAll (program.rename swap) none [.run, .step] =
        some ([stopped "up", stopped "up"], m) ∧
      SameRuns none program (program.rename swap) := by
  intro calls program swap stopped m
  refine ⟨by decide +kernel, by decide +kernel, ?_⟩
  exact (labels_only_names program none).2.1 swap (swap.injective.injOn)

end Program

end QuadAsm
