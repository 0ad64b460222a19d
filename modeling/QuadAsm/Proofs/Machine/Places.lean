import QuadAsm.Proofs.Assembly.Located

/-! Where a refused step is said to be.

The empty span is no place, so what is placed there should have none (`Span.known?`), which is what
`Diagnostic.locate` makes of it (`Diagnostic.span?_locate`). A refusal for a label is located, so it
tells the place of its jump as far as there is one. A refusal by the limit states the place of its
instruction whatever it is, and tells nowhere as a place when the instruction was never written
(`refusals_placed`, `limit_placed_nowhere`). -/
namespace QuadAsm

/-- The span as a place, unless it is that of what has none. -/
def Span.known? (span : Span) : Option Span := if span = .empty then none else some span

theorem Span.known?_of_ne {span : Span} (known : span ≠ .empty) : span.known? = some span :=
  if_neg known

theorem Span.known?_empty : Span.known? .empty = none := rfl

/-- Of two places the first that is known counts. -/
theorem Diagnostic.span?_locate (d : Diagnostic) (span : Span) :
    (d.locate span).span? = d.span?.or span.known? := by
  obtain ⟨fault, _ | here⟩ := d
  · simp only [locate, Span.known?, Option.none_or]
    split <;> rfl
  · rfl

namespace Machine

variable {program : Program} {limit : Option Nat} {m : Machine} {d : Diagnostic}

/-- A step is refused at the instruction that the pointer is at: for a label where that is known to
be, by the limit wherever it is. -/
theorem span?_of_refused (refused : m.step program limit = .error d) :
    ∃ i, program.get? m.pointer = some i ∧
      ((d.kind = .unresolvedLabel ∧ d.span? = i.span.known?) ∨
        (d.kind = .stepLimit ∧ d.span? = some i.span)) := by
  cases Stepped.of_eq refused with
  | limited fetched _ => exact ⟨_, fetched, .inr ⟨rfl, rfl⟩⟩
  | unresolved fetched _ _ _ _ =>
    refine ⟨_, fetched, .inl ⟨?_, Diagnostic.span?_locate _ _⟩⟩
    rw [Diagnostic.kind, Diagnostic.fault_locate]
    rfl

/-- **Refusals are placed where that is known, but for the limit.** Whatever call is refused, of any
machine, it is for a label or by the limit, at the instruction that the pointer is left at. The
refusal has a place just when that instruction has a known one, and then the same, if it is for a
label or the instruction was written somewhere; a refusal by the limit has the instruction's span
in any case, so that it is placed nowhere when the instruction is. Instructions of a program text
were written somewhere, and there all refusals are placed where they are. -/
theorem refusals_placed {c : Call} {reply : Reply} (called : m.call program limit c = some reply)
    (refused : reply.answer = .refused d) :
    ∃ i, program.get? reply.machine.pointer = some i ∧
      (d.kind = .unresolvedLabel ∨ d.kind = .stepLimit) ∧
      (d.span? = i.span.known? ↔ d.kind = .unresolvedLabel ∨ i.span ≠ .empty) ∧
      (d.kind = .stepLimit → d.span? = some i.span) ∧
      ∀ source, assemble source = .ok program → i.span ≠ .empty ∧ d.span? = some i.span := by
  obtain ⟨i, fetched, cause⟩ := span?_of_refused (refused_of_call called refused)
  have written (source : String) (assembled : assemble source = .ok program) : i.span ≠ .empty :=
    (onLine_of_assemble assembled (Program.mem_of_get? fetched)).ne_empty
  refine ⟨i, fetched, ?_⟩
  obtain ⟨kind, place⟩ | ⟨kind, place⟩ := cause
  · refine ⟨.inl kind, iff_of_true place (.inl kind), ?_, fun source assembled => ?_⟩
    · rw [kind]
      nofun
    · have known := written source assembled
      exact ⟨known, place.trans (Span.known?_of_ne known)⟩
  · refine ⟨.inr kind, ?_, fun _ => place, fun source assembled => ⟨written source assembled, place⟩⟩
    rw [place, kind]
    constructor
    · rintro same
      refine .inr fun nowhere => ?_
      rw [nowhere, Span.known?_empty] at same
      cases same
    · rintro (⟨⟨⟩⟩ | known)
      exact (Span.known?_of_ne known).symm

/-- Stopped by the limit at an instruction that was recorded with its place. -/
theorem refusals_placed_recorded :
    let calls := [.label "top", .emit ⟨.inc .ax (.literal 1), ⟨5, 11⟩⟩, .jump .always "top"]
    let program := (({} : Builder).attemptAll calls).program
    let d := (Fault.stepLimit 2).at ⟨5, 11⟩
    ∃ reply, start.call program (some 2) .run = some reply ∧ reply.answer = .refused d ∧
      ∃ i, program.get? reply.machine.pointer = some i ∧ d.span? = some i.span := by
  intro calls program d
  have replied : (start.call program (some 2) .run).map (·.answer) = some (.refused d) := by cbv
  obtain ⟨reply, called, refused⟩ := Option.map_eq_some_iff.mp replied
  obtain ⟨i, fetched, _, _, limited, _⟩ := refusals_placed called refused
  exact ⟨reply, called, refused, i, fetched, limited rfl⟩

/-- Stopped by the limit at a jump that was never written, a machine says that it is at the start of
a text. -/
theorem limit_placed_nowhere :
    let calls := [.label "spin", .jump .always "spin"]
    let program := (({} : Builder).attemptAll calls).program
    ∃ reply d i, start.call program (some 1) .run = some reply ∧ reply.answer = .refused d ∧
      program.get? reply.machine.pointer = some i ∧ i.span = .empty ∧
      d.span? = some .empty ∧ d.span? ≠ i.span.known? := by
  intro calls program
  let d := (Fault.stepLimit 1).at .empty
  let jump : Instruction := ⟨.jump .always "spin", .empty⟩
  have replied : (start.call program (some 1) .run).map
      (fun reply => (reply.answer, program.get? reply.machine.pointer)) =
        some (.refused d, some jump) := by cbv
  obtain ⟨reply, called, left⟩ := Option.map_eq_some_iff.mp replied
  exact ⟨reply, d, jump, called, congrArg Prod.fst left, congrArg Prod.snd left, rfl, rfl,
    Option.some_ne_none _⟩

end Machine

end QuadAsm
