import Mathlib.Data.Finset.Card
import QuadAsm.Proofs.Program.Calls

/-! What a builder's log says of its labels.

Only a declaration leaves a record, and it tells the name and the index that go into the table, so
the records put down one after the other are the table again, and the index of a name is the one
that its last record tells (`Event.getElem?_table`). A name that is new makes the table one larger,
and any other is a warning. A builder whose log says this is `Accounted`, which every entry keeps,
so it holds whatever a builder is asked for, and also of the log that a program text leaves
(`log_determines_labels`). -/
namespace QuadAsm

namespace Event

/-- The name and the index that the record of a declaration tells. -/
def declares? : Event → Option (String × Nat)
  | labelDeclared name index => some (name, index)
  | labelMoved name _ index => some (name, index)
  | _ => none

/-- The table that the records of declarations give, one put down after the other. -/
def table (log : List Event) : Std.ExtTreeMap String Nat :=
  (log.filterMap declares?).foldl (fun table (name, index) => table.insert name index) ∅

/-- The index that the last record of a name tells. -/
def lastIndex? (log : List Event) (name : String) : Option Nat :=
  (log.filterMap declares?).reverse.lookup name

theorem table_concat {log : List Event} {event : Event} {name : String} {index : Nat}
    (declares : event.declares? = some (name, index)) :
    table (log ++ [event]) = (table log).insert name index := by
  simp [table, List.filterMap_append, declares]

/-- The table has a name at the index that the last record of the name tells. -/
theorem getElem?_table (log : List Event) (name : String) :
    (table log)[name]? = lastIndex? log name := by
  unfold table lastIndex?
  induction log.filterMap declares? using List.reverseRecOn with
  | nil => simp
  | append_singleton records last ih =>
    obtain ⟨declared, index⟩ := last
    rw [List.foldl_append, List.reverse_append]
    by_cases same : declared = name
    · subst same
      simp
    · have other : (name == declared) = false := by simpa using Ne.symm same
      simp [Std.ExtTreeMap.getElem?_insert, List.lookup_cons, other, same, ih]

end Event

namespace Builder

variable {b : Builder} {name : String} {calls : List Call}

/-! ### The record of one declaration -/

theorem declares?_labelEvent (program : Program) (name : String) (index : Nat) :
    (labelEvent program name index).declares? = some (name, index) := by
  unfold labelEvent
  cases program.label? name <;> rfl

theorem level_labelEvent (program : Program) (name : String) (index : Nat) :
    (labelEvent program name index).level =
      if (program.label? name).isSome then .warn else .debug := by
  unfold labelEvent
  cases program.label? name <;> rfl

theorem size_labels_record_label (b : Builder) (name : String) :
    (b.record (.label name)).program.labels.size =
      if (b.program.label? name).isSome then b.program.labels.size
      else b.program.labels.size + 1 := by
  simp [record, Program.label?, Std.ExtTreeMap.size_insert]

/-- The records of the log give the table, and those of names that were there are warnings. -/
structure Accounted (b : Builder) : Prop where
  table : Event.table b.log.toList = b.program.labels
  warnings : b.log.toList.countP (·.level = .warn) + b.program.labels.size = b.log.size

theorem accounted_empty : ({} : Builder).Accounted := ⟨rfl, rfl⟩

theorem Accounted.record (accounted : b.Accounted) (entry : Entry) : (b.record entry).Accounted := by
  cases entry with
  | instruction i => exact ⟨accounted.table, accounted.warnings⟩
  | label name =>
    constructor
    · simp only [Builder.record, Array.toList_push]
      rw [Event.table_concat (declares?_labelEvent ..), accounted.table]
    · have before := accounted.warnings
      rw [size_labels_record_label]
      simp only [Builder.record, Array.toList_push, List.countP_append, List.countP_singleton,
        level_labelEvent, Array.size_push]
      cases (b.program.label? name).isSome
      · simp only [Bool.false_eq_true, if_false, reduceCtorEq, decide_false]
        omega
      · simp only [if_true, decide_true]
        omega

theorem Accounted.recordAll (accounted : b.Accounted) (entries : List Entry) :
    (b.recordAll entries).Accounted := by
  induction entries generalizing b with
  | nil => exact accounted
  | cons entry entries ih => exact ih (accounted.record entry)

theorem Accounted.lastIndex? (accounted : b.Accounted) (name : String) :
    Event.lastIndex? b.log.toList name = b.program.label? name := by
  rw [← Event.getElem?_table, accounted.table]
  rfl

theorem accounted_attemptAll (calls : List Call) : (({} : Builder).attemptAll calls).Accounted := by
  rw [attemptAll_eq_recordAll]
  exact accounted_empty.recordAll _

/-! ### Calls -/

/-- The name that a call declares. -/
def Call.declared? : Call → Option String
  | label name => some name
  | _ => none

theorem mem_declared_iff : name ∈ calls.filterMap Call.declared? ↔ .label name ∈ calls := by
  rw [List.mem_filterMap]
  constructor
  · rintro ⟨c, member, declared⟩
    cases c <;> cases declared
    exact member
  · intro member
    exact ⟨_, member, rfl⟩

/-- A call that declares nothing leaves the log and the table as they are. -/
theorem attempt_of_other {b : Builder} {c : Call} (other : ∀ name, c ≠ .label name) :
    (b.attempt c).log = b.log ∧ (b.attempt c).program.labels = b.program.labels := by
  unfold attempt
  obtain ⟨name, same, _⟩ | ⟨i, _, asked, _⟩ | ⟨d, asked, _⟩ := c.entry_cases
  · exact absurd same (other name)
  · rw [asked]
    exact ⟨rfl, rfl⟩
  · rw [asked]
    exact ⟨rfl, rfl⟩

/-- A name is in the table once it has been declared. -/
theorem isSome_label?_attemptAll_iff :
    ((({} : Builder).attemptAll calls).program.label? name).isSome = true ↔
      name ∈ calls.filterMap Call.declared? := by
  rw [Option.isSome_iff_exists, exists_label_attemptAll_iff, mem_declared_iff]

theorem card_toFinset_concat (names : List String) (name : String) :
    (names ++ [name]).toFinset.card =
      if name ∈ names then names.toFinset.card else names.toFinset.card + 1 := by
  have grown : (names ++ [name]).toFinset = insert name names.toFinset := by
    ext other
    simp
  rw [grown, Finset.card_insert_eq_ite]
  simp only [List.mem_toFinset]

/-- There are as many names in the table as have been declared, and as many records in the log as
there were declarations. -/
theorem size_declared (calls : List Call) :
    (({} : Builder).attemptAll calls).program.labels.size =
        (calls.filterMap Call.declared?).toFinset.card ∧
      (({} : Builder).attemptAll calls).log.size = (calls.filterMap Call.declared?).length := by
  induction calls using List.reverseRecOn with
  | nil => exact ⟨rfl, rfl⟩
  | append_singleton calls c ih =>
    obtain ⟨size, length⟩ := ih
    rw [attemptAll_append, List.filterMap_append]
    show ((Builder.attemptAll {} calls).attempt c).program.labels.size = _ ∧
      ((Builder.attemptAll {} calls).attempt c).log.size = _
    cases declared : c.declared? with
    | some name =>
      obtain rfl : c = .label name := by cases c <;> cases declared; rfl
      constructor
      · show ((Builder.attemptAll {} calls).record (.label name)).program.labels.size =
          (calls.filterMap Call.declared? ++ [name]).toFinset.card
        rw [size_labels_record_label, card_toFinset_concat, size]
        simp only [isSome_label?_attemptAll_iff]
      · show (Array.push _ _).size = (calls.filterMap Call.declared? ++ [name]).length
        rw [Array.size_push, length, List.length_append, List.length_singleton]
    | none =>
      have other : ∀ name, c ≠ .label name := by
        rintro name rfl
        cases declared
      obtain ⟨log, labels⟩ := attempt_of_other (b := Builder.attemptAll {} calls) other
      rw [log, labels, size, length]
      simp [declared]

end Builder

/-- What a text is assembled to is what its log says. -/
theorem Assembly.accounted_of_ofCursor {b : Builder} {c : Cursor} {program : Program}
    (accounted : b.Accounted) (h : (ofCursor b c).result = .ok program) :
    ∃ last : Builder, last.Accounted ∧ (ofCursor b c).log = last.log ∧
      program = last.program := by
  fun_induction ofCursor b c with
  | case1 b c _ =>
    cases h
    exact ⟨b, accounted, rfl, rfl⟩
  | case2 b c item _ entry _ ih => exact ih (accounted.record entry) h
  | case3 => cases h

theorem Assembly.accounted_of_ofSource {source : String} {program : Program}
    (h : (ofSource source).result = .ok program) :
    ∃ last : Builder, last.Accounted ∧ (ofSource source).log = last.log ∧
      program = last.program := by
  unfold ofSource at h ⊢
  split at h
  · exact accounted_of_ofCursor Builder.accounted_empty h
  · cases h

/-- **The log of a builder says where its labels are.** Of any calls, refused ones included: a
declaration leaves one record and no other call leaves any. The record is a warning just when the
name was declared before, and then it tells the index of the last record of that name as the one
that is left; otherwise it is a debug record. The records put down one after the other are the
table of the program; the warnings and the different names that were declared are together as many
as the declarations. The log of a text that is assembled tells its program's table in the same
way. -/
theorem Builder.log_determines_labels (calls : List Call) :
    let b := ({} : Builder).attemptAll calls
    let names := calls.filterMap Call.declared?
    (∀ c, (∀ name, c ≠ .label name) → (b.attempt c).log = b.log) ∧
      (∀ name, ∃ event, (b.attempt (.label name)).log = b.log.push event ∧
        ((.label name ∈ calls ∧ event.level = .warn ∧
            ∃ before, Event.lastIndex? b.log.toList name = some before ∧
              event = .labelMoved name before b.program.size) ∨
          (.label name ∉ calls ∧ event.level = .debug ∧
            event = .labelDeclared name b.program.size))) ∧
      Event.table b.log.toList = b.program.labels ∧
      b.log.size = names.length ∧
      b.log.toList.countP (·.level = .warn) + names.toFinset.card = names.length ∧
      (∀ source program, (Assembly.ofSource source).result = .ok program →
        Event.table (Assembly.ofSource source).log.toList = program.labels ∧
          (Assembly.ofSource source).log.toList.countP (·.level = .warn) + program.labels.size =
            (Assembly.ofSource source).log.size) := by
  intro b names
  have accounted : b.Accounted := accounted_attemptAll calls
  obtain ⟨size, length⟩ := size_declared calls
  refine ⟨fun c other => (attempt_of_other other).1, fun name => ⟨_, rfl, ?_⟩, accounted.table,
    length, ?_, ?_⟩
  · by_cases declared : .label name ∈ calls
    · obtain ⟨before, found⟩ := exists_label_attemptAll_iff.mpr declared
      have moved : labelEvent b.program name b.program.size =
          .labelMoved name before b.program.size := by rw [labelEvent, found]
      rw [moved]
      exact .inl ⟨declared, rfl, before, (accounted.lastIndex? name).trans found, rfl⟩
    · have absent : b.program.label? name = none :=
        Option.eq_none_iff_forall_ne_some.mpr fun index found =>
          declared (exists_label_attemptAll_iff.mp ⟨index, found⟩)
      have fresh : labelEvent b.program name b.program.size =
          .labelDeclared name b.program.size := by rw [labelEvent, absent]
      rw [fresh]
      exact .inr ⟨declared, rfl, rfl⟩
  · rw [← size, ← length]
    exact accounted.warnings
  · intro source program assembled
    obtain ⟨last, accounted, log, rfl⟩ := Assembly.accounted_of_ofSource assembled
    rw [log]
    exact ⟨accounted.table, accounted.warnings⟩

/-- A name is declared again behind a jump, and a call in between is refused. -/
example :
    let calls := [.label "a", .jump .always "b", .texts "mov" ["ex"], .label "a", .label "b"]
    (({} : Builder).attemptAll calls).log =
      #[.labelDeclared "a" 0, .labelMoved "a" 0 1, .labelDeclared "b" 1] := by cbv

end QuadAsm
