import QuadAsm.Assembly
import QuadAsm.Proofs.Statement.Grammar

/-! Statements apart from where they stand.

A phrase is what a statement says; a builder can be asked to record it by a call. The
statements of a text and the calls of their phrases come to the same (`agrees`): the same
program, but that what a builder records stands nowhere, or the same first fault. -/
namespace QuadAsm

/-- What a statement says, wherever it stands. -/
inductive Phrase where
  | label (name : String)
  | instruction (mnemonic : String) (operands : List String)
  deriving DecidableEq, Repr

/-- The call that records a phrase. -/
def Phrase.call : Phrase → Builder.Call
  | label name => .label name
  | instruction mnemonic operands => .texts mnemonic operands

def Statement.phrase : Statement → Phrase
  | label name _ => .label name
  | instruction mnemonic operands _ => .instruction mnemonic operands

/-! ### Forgetting places -/

/-- The instruction as if it had not been written anywhere. -/
def Instruction.unplaced (i : Instruction) : Instruction := { i with span := .empty }

def Entry.unplaced : Entry → Entry
  | label name => label name
  | instruction i => instruction i.unplaced

/-- The program with the same operations and labels, written nowhere. -/
def Program.unplaced (program : Program) : Program :=
  { program with instructions := program.instructions.map Instruction.unplaced }

@[simp] theorem Program.size_unplaced (program : Program) :
    program.unplaced.size = program.size := Array.size_map ..

/-- A statement and the call of its phrase ask for the same entry, or have the same fault. -/
theorem Statement.entry_phrase (s : Statement) :
    (∃ entry, Entry.ofStatement s = .ok entry ∧ s.phrase.call.entry = .ok entry.unplaced) ∨
      ∃ d e, Entry.ofStatement s = .error d ∧ s.phrase.call.entry = .error e ∧
        d.fault = e.fault := by
  cases s with
  | label name span => exact .inl ⟨.label name, rfl, rfl⟩
  | instruction mnemonic operands span =>
    simp only [Entry.ofStatement, phrase, Phrase.call, Builder.Call.entry, Entry.ofTexts]
    cases Operation.read mnemonic operands with
    | ok operation => exact .inl ⟨_, rfl, rfl⟩
    | error fault => exact .inr ⟨_, _, rfl, rfl, by simp only [Diagnostic.fault_locate]⟩

namespace Builder

theorem record_unplaced {b placed : Builder} (same : b.program = placed.program.unplaced)
    (entry : Entry) :
    (b.record entry.unplaced).program = (placed.record entry).program.unplaced := by
  cases entry with
  | label name =>
    simp only [record, Entry.unplaced, same, Program.size_unplaced]
    rfl
  | instruction i => simp [record, Entry.unplaced, Program.unplaced, same]

/-! ### Calls that are all to succeed -/

/-- The builder after all of these calls, or why the first one that is refused is. -/
def callAll (b : Builder) (calls : List Call) : Except Diagnostic Builder := calls.foldlM call b

theorem callAll_cons_ok {b : Builder} {c : Call} {entry : Entry} (h : c.entry = .ok entry)
    (calls : List Call) : callAll b (c :: calls) = callAll (b.record entry) calls := by
  rw [callAll, List.foldlM_cons, call, h]
  rfl

theorem callAll_cons_error {b : Builder} {c : Call} {d : Diagnostic} (h : c.entry = .error d)
    (calls : List Call) : callAll b (c :: calls) = .error d := by
  rw [callAll, List.foldlM_cons, call, h]
  rfl

/-- Calls of which none is refused leave what they would if some could be. -/
theorem attemptAll_of_callAll {b last : Builder} {calls : List Call}
    (accepted : b.callAll calls = .ok last) :
    b.attemptAll calls = last := by
  induction calls generalizing b with
  | nil =>
    cases accepted
    rfl
  | cons c calls ih =>
    cases asked : c.entry with
    | ok entry =>
      rw [callAll_cons_ok asked] at accepted
      show (b.attempt c).attemptAll calls = last
      rw [attempt, asked]
      exact ih accepted
    | error d =>
      rw [callAll_cons_error asked] at accepted
      cases accepted

/-- A refusal is that of the first call that is refused. -/
theorem first_refused {b : Builder} {calls : List Call} {d : Diagnostic}
    (h : b.callAll calls = .error d) :
    ∃ before c after between, calls = before ++ c :: after ∧ b.callAll before = .ok between ∧
      between.call c = .error d := by
  induction calls generalizing b with
  | nil => cases h
  | cons c calls ih =>
    cases asked : c.entry with
    | error e =>
      rw [callAll_cons_error asked] at h
      cases h
      exact ⟨[], c, calls, b, rfl, rfl, by rw [call, asked]; rfl⟩
    | ok entry =>
      rw [callAll_cons_ok asked] at h
      obtain ⟨before, refused, after, between, rfl, accepted, refusal⟩ := ih h
      exact ⟨c :: before, refused, after, between, rfl, by rwa [callAll_cons_ok asked], refusal⟩

end Builder

/-! ### Statements one after the other -/

/-- Records these statements behind what has been recorded, up to the first fault. -/
def Assembly.ofItems (b : Builder) : List (Except Diagnostic Statement) → Assembly
  | [] => ⟨.ok b.program, b.log⟩
  | item :: items =>
    match item.bind Entry.ofStatement with
    | .ok entry => ofItems (b.record entry) items
    | .error d => ⟨.error d, b.log⟩

/-- What is recorded from a cursor on is all that is still to be read. -/
theorem Assembly.ofCursor_eq_ofItems (b : Builder) (c : Cursor) :
    ofCursor b c = ofItems b c.remaining := by
  fun_induction ofCursor b c with
  | case1 b c none =>
    rw [Cursor.remaining_of_none none]
    rfl
  | case2 b c item next entry accepted ih =>
    rw [Cursor.remaining_of_some next, ofItems, accepted]
    exact ih
  | case3 b c item next d refused =>
    rw [Cursor.remaining_of_some next, ofItems, refused]

/-- The result of statements and that of the calls of their phrases, but for places. -/
inductive Agrees : Except Diagnostic Program → Except Diagnostic Builder → Prop where
  | ok {program : Program} {b : Builder} (same : b.program = program.unplaced) :
      Agrees (.ok program) (.ok b)
  | error {d e : Diagnostic} (same : d.fault = e.fault) : Agrees (.error d) (.error e)

namespace Agrees

variable {program : Program} {b : Builder} {d e : Diagnostic}
  {result : Except Diagnostic Program} {called : Except Diagnostic Builder}

theorem ok_iff (h : Agrees result called) :
    (∃ program, result = .ok program) ↔ ∃ b, called = .ok b := by
  cases h with
  | @ok program b _ => exact ⟨fun _ => ⟨b, rfl⟩, fun _ => ⟨program, rfl⟩⟩
  | error _ => simp

theorem same_program (h : Agrees (.ok program) (.ok b)) : b.program = program.unplaced := by
  cases h with
  | ok same => exact same

theorem same_fault (h : Agrees (.error d) (.error e)) : d.fault = e.fault := by
  cases h with
  | error same => exact same

end Agrees

theorem agrees (statements : List Statement) {b placed : Builder}
    (same : b.program = placed.program.unplaced) :
    Agrees (Assembly.ofItems placed (statements.map .ok)).result
      (b.callAll (statements.map fun s => s.phrase.call)) := by
  induction statements generalizing b placed with
  | nil => exact .ok same
  | cons s statements ih =>
    rw [List.map_cons, List.map_cons, Assembly.ofItems]
    rcases s.entry_phrase with ⟨entry, said, asked⟩ | ⟨d, e, said, asked, fault⟩
    · simp only [Except.bind, said, Builder.callAll_cons_ok asked]
      exact ih (Builder.record_unplaced same entry)
    · simp only [Except.bind, said, Builder.callAll_cons_error asked]
      exact .error fault

end QuadAsm
