import Mathlib.Data.Option.Defs
import QuadAsm.Assembly.Run
import QuadAsm.CommandLine
import QuadAsm.Proofs.Machine.Recurrence
import QuadAsm.Proofs.Machine.Unresolved

/-! Commands do what the library does.

A command assembles its file's text as `assemble` does, and `run` then runs the program as
`runSource` does, only that the log is kept (`perform_run`). Nothing that goes wrong is answered
but with its report behind the log, and what goes wrong in assembling is answered alike by all
three commands (`perform_of_refused`). `check` writes a warning for every unresolved jump it counts,
and no other event of the log is such a warning (`perform_check`). All this is by whatever clock: the
events of a log do not depend on it, only the times in front of them do. -/
namespace QuadAsm

/-! ### The log of an assembly -/

/-- Assembling only tells of declarations. -/
theorem Assembly.mem_log_of_ofCursor {b : Builder} {c : Cursor} {event : Event}
    (member : event ∈ (ofCursor b c).log) : event ∈ b.log ∨
      (∃ name index, event = .labelDeclared name index) ∨
        ∃ name before index, event = .labelMoved name before index := by
  fun_induction ofCursor b c with
  | case1 b c _ => exact .inl member
  | case2 b c item _ entry _ ih =>
    rcases ih member with recorded | told
    · cases entry with
      | instruction i => exact .inl recorded
      | label name =>
        rcases Array.mem_push.mp recorded with before | rfl
        · exact .inl before
        · right
          unfold Builder.labelEvent
          split
          · exact .inr ⟨_, _, _, rfl⟩
          · exact .inl ⟨_, _, rfl⟩
    · exact .inr told
  | case3 => exact .inl member

namespace CommandLine

variable {source file : String} {program : Program}

/-- The log of an assembly as it is shown when no more is asked for. -/
def shown (source : String) : Array Event := (Assembly.ofSource source).log.foldl (note 0) #[]

theorem foldl_note (verbosity : Nat) (log : Array Event) :
    log.foldl (note verbosity) #[] = log.filter (·.level.verbosity ≤ verbosity) := by
  simp only [Array.filter, decide_eq_true_eq]
  rfl

/-- It is shown which labels were moved, and nothing else. -/
theorem moved_of_mem_shown {event : Event} (member : event ∈ shown source) :
    ∃ name before index, event = .labelMoved name before index := by
  rw [shown, foldl_note, Array.mem_filter] at member
  obtain ⟨member, warns⟩ := member
  unfold Assembly.ofSource at member
  split at member
  · rcases Assembly.mem_log_of_ofCursor member with earlier | ⟨name, index, rfl⟩ | moved
    · exact absurd earlier (Array.not_mem_empty _)
    · exact absurd (of_decide_eq_true warns) (Nat.not_succ_le_zero 0)
    · exact moved
  · exact absurd member (Array.not_mem_empty _)

theorem decode_toUTF8 (source : String) : decode source.toUTF8 = .ok source := by
  have valid : String.fromUTF8? source.toUTF8 = some source := dif_pos source.isValidUTF8
  rw [decode, valid]

/-! ### What the commands leave -/

section Performing

variable (clock : Clock)

/-- What cannot be assembled is reported by every command alike. -/
theorem perform_of_refused {d : Diagnostic} (refused : assemble source = .error d)
    (command : Command) : performBy clock ⟨command, file, 0⟩ (.ok source) =
      some (failure clock (shown source) file source d) := by
  have result : (Assembly.ofSource source).result = .error d := refused
  simp only [performBy, result]
  rfl

/-- What `run` leaves of a run with this result: the registers, or the report of what is wrong
behind the log. -/
inductive Answers (file source : String) : Except Diagnostic Bank → Response → Prop where
  | ok (registers : Bank) (log : String) :
      Answers file source (.ok registers) ⟨0, registers.text ++ "\n", log⟩
  | error (d : Diagnostic) (log : String) :
      Answers file source (.error d) ⟨1, "", log ++ Report.text file source d⟩

/-- A run is over, and with the same result, whoever watches it. -/
theorem runWith_watched {α β : Type} (program : Program) (observe : α → Event → α)
    (observe' : β → Event → β) (limit : Option Nat) (m : Machine) (seen : α) (seen' : β) :
    Option.Rel (fun ending other => ending.result = other.result)
      (m.runWith program limit observe seen) (m.runWith program limit observe' seen') := by
  cases carried : m.runWith program limit observe seen with
  | none =>
    rw [Machine.runWith_eq_none_iff.mpr (Machine.runWith_eq_none_iff.mp carried)]
    exact .none
  | some ending =>
    have ends := Machine.ends_of_runFor carried
    obtain ⟨other, carried', _, result⟩ := (Machine.ends_iff_exists_runWith observe' seen').mp ends
    rw [carried']
    exact .some result.symm

/-- `run` answers with what the text ends with when it is run. -/
theorem perform_run (source file : String) (limit : Option Nat) :
    Option.Rel (Answers file source) (runSource source limit)
      (performBy clock ⟨.run limit, file, 0⟩ (.ok source)) := by
  cases assembled : assemble source with
  | error d =>
    rw [perform_of_refused clock assembled, runSource, assembled]
    exact .some (.error d _)
  | ok program =>
    have result : (Assembly.ofSource source).result = .ok program := assembled
    simp only [performBy, result, runSource, assembled, Program.run, Machine.run]
    have same := runWith_watched program (fun _ _ => ()) (note 0) limit .start ()
      (note 0 (shown source) (.assembled program.size program.labels.size))
    unfold shown at same
    generalize Machine.start.runWith program limit (fun _ _ => ()) () = alone,
      Machine.start.runWith program limit (note 0) _ = watched at same ⊢
    cases same with
    | none => exact .none
    | @some ending other same =>
      simp only [Option.map_some, same]
      cases other.result with
      | ok registers => exact .some (.ok registers _)
      | error d => exact .some (.error d _)

/-- Every warning of `check` is shown. -/
theorem foldl_unresolved (jumps : List Instruction) (log : Array Event) :
    jumps.foldl (fun log i => note 0 log (.unresolvedJump file i)) log =
      log ++ (jumps.map (Event.unresolvedJump file)).toArray := by
  induction jumps generalizing log with
  | nil => simp
  | cons i jumps ih =>
    have noted : note 0 log (.unresolvedJump file i) = log.push (.unresolvedJump file i) :=
      if_pos (Nat.le_refl 0)
    rw [List.foldl_cons, ih, noted]
    simp

theorem perform_check (assembled : assemble source = .ok program) :
    performBy clock ⟨.check, file, 0⟩ (.ok source) =
      some ⟨0, summary file program, logText clock
        (shown source ++ (program.unresolved.map (Event.unresolvedJump file)).toArray)⟩ := by
  have result : (Assembly.ofSource source).result = .ok program := assembled
  simp only [performBy, result, foldl_unresolved]
  rfl

theorem perform_dump (assembled : assemble source = .ok program) :
    performBy clock ⟨.dump, file, 0⟩ (.ok source) =
      some ⟨0, program.listing, logText clock (shown source)⟩ := by
  have result : (Assembly.ofSource source).result = .ok program := assembled
  simp only [performBy, result]
  rfl

/-- The table counts every label once. -/
theorem exists_names (program : Program) : ∃ names : List String, names.Nodup ∧
    (∀ name, name ∈ names ↔ ∃ index, program.label? name = some index) ∧
    names.length = program.labels.size := by
  refine ⟨program.labels.keys, Std.ExtTreeMap.nodup_keys, fun name => ?_,
    Std.ExtTreeMap.length_keys⟩
  rw [Std.ExtTreeMap.mem_keys, Std.ExtTreeMap.mem_iff_isSome_getElem?, Option.isSome_iff_exists]
  rfl

/-- The instruction is a jump to a label that points nowhere. -/
def Dangling (program : Program) (i : Instruction) : Prop :=
  ∃ condition name, i.operation = .jump condition name ∧ ∀ index, program.label? name ≠ some index

theorem isUnresolved_iff_dangling {i : Instruction} :
    program.isUnresolved i = true ↔ Dangling program i := by
  rw [Program.isUnresolved_iff]
  constructor
  · rintro ⟨name, target, nowhere⟩
    obtain ⟨condition, jump⟩ := Operation.target?_eq_some_iff.mp target
    exact ⟨condition, name, jump, Option.eq_none_iff_forall_ne_some.mp nowhere⟩
  · rintro ⟨condition, name, jump, nowhere⟩
    exact ⟨name, Operation.target?_eq_some_iff.mpr ⟨condition, jump⟩,
      Option.eq_none_iff_forall_ne_some.mpr nowhere⟩

instance (program : Program) (i : Instruction) : Decidable (Dangling program i) :=
  decidable_of_iff _ isUnresolved_iff_dangling

/-- The unresolved jumps are those that are dangling, in their order. -/
theorem unresolved_eq (program : Program) :
    program.unresolved = program.instructions.toList.filter (Dangling program ·) := by
  refine List.filter_congr fun i _ => ?_
  rw [Bool.eq_iff_iff, decide_eq_true_iff]
  exact isUnresolved_iff_dangling

/-- What a command leaves behind on a file that holds the text, when no more of the log is asked
for. -/
def performOn (source file : String) (command : Command) : Option Response :=
  performBy clock ⟨command, file, 0⟩ (decode source.toUTF8)

/-- The command returns with the exit code of a success. -/
def Succeeds (response? : Option Response) : Prop :=
  ∃ response, response? = some response ∧ response.code = 0

theorem run_succeeds_iff (source file : String) (limit : Option Nat) :
    Succeeds (performBy clock ⟨.run limit, file, 0⟩ (.ok source)) ↔
      ∃ registers, runSource source limit = some (.ok registers) := by
  have answered := perform_run clock source file limit
  generalize runSource source limit = result,
    performBy clock ⟨.run limit, file, 0⟩ (.ok source) = response at answered
  cases answered with
  | none => simp [Succeeds]
  | some answers => cases answers <;> simp [Succeeds]

/-- A command that only assembles succeeds just when there is a program. -/
theorem succeeds_iff {command : Command}
    (assembled : ∀ program, assemble source = .ok program →
      Succeeds (performBy clock ⟨command, file, 0⟩ (.ok source))) :
    Succeeds (performBy clock ⟨command, file, 0⟩ (.ok source)) ↔
      ∃ program, assemble source = .ok program := by
  constructor
  · intro ⟨response, performed, code⟩
    cases result : assemble source with
    | ok program => exact ⟨program, rfl⟩
    | error d =>
      rw [perform_of_refused clock result] at performed
      cases performed
      cases code
  · exact fun ⟨program, result⟩ => assembled program result

end Performing

end CommandLine

end QuadAsm
