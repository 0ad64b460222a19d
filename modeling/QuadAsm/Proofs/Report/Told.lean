import QuadAsm.Proofs.Machine.Places
import QuadAsm.Proofs.Program.Words
import QuadAsm.Proofs.Report.Marks

/-! What a report tells.

Every report says of what kind a diagnostic is. If the diagnostic is placed within the text, the
report says below its last line what is wrong (`Extent.shown`, `tells_message`). Without a place only
the kind is left (`text_of_unplaced`), and no fault that is found by the program itself has its
message in there: each message has a character that no report without a place has
(`Fault.exists_telling`). All that can be wrong with a text has a place in it, if bytes are
characters; what a builder refuses has none, and a jump to a label that is not declared has one if
it was written anywhere (`told_where_placed`). -/
namespace QuadAsm

/-! ### Faults and their messages -/

namespace Fault

variable {fault : Fault}

/-- The fault is one that the program finds, and not one that it is handed. -/
def Own (fault : Fault) : Prop := ∀ kind words, fault ≠ .reported kind words

/-- Characters that no kind has in its name. -/
def telling : List Char := ['\'', ',', '(', 'T', 'S']

/-- The message of a fault cannot be read off its kind. -/
theorem exists_telling (own : fault.Own) : ∃ c ∈ telling, c ∈ fault.message.toList := by
  have first {a b : String} {c : Char} (h : c ∈ a.toList) : c ∈ (a ++ b).toList := by
    rw [String.toList_append]
    exact List.mem_append_left _ h
  have last {a b : String} {c : Char} (h : c ∈ b.toList) : c ∈ (a ++ b).toList := by
    rw [String.toList_append]
    exact List.mem_append_right _ h
  cases fault with
  | reported kind words => exact absurd rfl (own kind words)
  | unexpectedToken => exact ⟨',', by decide, first (last (by decide))⟩
  | operandExpected => exact ⟨',', by decide, first (by decide)⟩
  | outOfTokens => exact ⟨'T', by decide, by decide⟩
  | operandCount => exact ⟨'(', by decide, first (last (by decide))⟩
  | stepLimit => exact ⟨'S', by decide, first (first (by decide))⟩
  | _ => exact ⟨'\'', by decide, last (by decide)⟩

/-- A report without a place has none of them. -/
theorem telling_notMem (kind : Kind) {c : Char} (member : c ∈ telling) :
    c ∉ (s!"Error: {kind.text}\n").toList := by
  have free : ("Error: ".toList ++ kind.text.toList ++ "\n".toList).all (!telling.contains ·) := by
    cases kind <;> decide
  intro among
  rw [String.toList_append, String.toList_append] at among
  have absent := List.all_eq_true.mp free c among
  simp [member] at absent

/-! ### Faults that are found -/

theorem Own.of_misfit {opcode : Opcode} {places : List Place} {given : List Operand}
    {kind : Kind} (first : Place.FirstMisfit opcode places given kind fault) : fault.Own := by
  induction first with
  | here misfit => cases misfit <;> exact nofun
  | later _ _ ih => exact ih

theorem Own.of_firstFault {mnemonic : String} {texts : List String} {kind : Kind}
    (first : FirstFault mnemonic texts kind fault) : fault.Own := by
  cases first with
  | mnemonic | count => exact nofun
  | word _ _ _ unreadable => cases unreadable <;> exact nofun
  | operand _ _ _ first => exact .of_misfit first

theorem Own.of_ofOperands {opcode : Opcode} {given : List Operand}
    (refused : Operation.ofOperands opcode given = .error fault) : fault.Own := by
  obtain ⟨-, rfl⟩ | ⟨-, kind, first⟩ := Operation.ofOperands_eq_error_iff.mp refused
  · exact nofun
  · exact .of_misfit first

end Fault

/-- What a builder refuses has no place, and is a fault of its own finding. -/
theorem Builder.exists_own_of_refused {b : Builder} {c : Call} {d : Diagnostic}
    (refused : b.call c = .error d) : ∃ fault : Fault, fault.Own ∧ d = fault.unplaced := by
  cases c with
  | label name => cases refused
  | emit i => cases refused
  | operands opcode given =>
    simp only [call, Call.entry, Entry.ofOperands] at refused
    cases made : Operation.ofOperands opcode given with
    | ok operation =>
      rw [made] at refused
      cases refused
    | error fault =>
      rw [made] at refused
      cases refused
      exact ⟨fault, .of_ofOperands made, rfl⟩
  | texts mnemonic texts =>
    obtain ⟨fault, read, rfl⟩ := call_texts_eq_error_iff.mp refused
    obtain ⟨kind, first⟩ := Operation.read_eq_error_iff.mp read
    exact ⟨fault, .of_firstFault first, rfl⟩

theorem Machine.own_of_refused {program : Program} {limit : Option Nat} {m : Machine}
    {d : Diagnostic} (refused : m.step program limit = .error d) : d.fault.Own := by
  cases Stepped.of_eq refused with
  | limited => exact nofun
  | unresolved =>
    rw [Diagnostic.fault_locate]
    exact nofun

/-- What is wrong with a text that is run has a place in it. -/
theorem placed_of_runSource {source : String} {limit : Option Nat} {d : Diagnostic}
    (refused : runSource source limit = some (.error d)) :
    ∃ span, d.span? = some span ∧ span.start < span.stop ∧ span.stop ≤ source.utf8ByteSize := by
  obtain unassembled | ⟨_, _, assembled, _, _, refused⟩ := refused_of_runSource refused
  · obtain ⟨⟨span, _, located⟩, _⟩ := refused_of_assemble unassembled
    exact ⟨span, located.place, located.nonempty, located.inside⟩
  · obtain ⟨i, _, _, located, _⟩ := Machine.located_of_refused assembled refused
    exact ⟨i.span, located.place, located.nonempty, located.inside⟩

namespace Report

variable {file source : String} {d : Diagnostic}

/-- The text has these words in it. -/
def Tells (text words : String) : Prop := words.toList <:+: text.toList

instance (text words : String) : Decidable (Tells text words) :=
  inferInstanceAs (Decidable (words.toList <:+: text.toList))

theorem tells_of_line {line words : String} (shown : line ∈ lines file source d)
    (ends : words.toList <:+ line.toList) : Tells (text file source d) words := by
  have ended : line.toList <:+: (line ++ "\n").toList := by
    rw [String.toList_append]
    exact (List.prefix_append _ _).isInfix
  have among : (line ++ "\n").toList <:+: (text file source d).toList := by
    rw [text, String.toList_join, List.flatMap_map, List.flatMap_def]
    exact List.infix_of_mem_flatten (List.mem_map_of_mem shown)
  exact ends.isInfix.trans (ended.trans among)

theorem tells_kind (file source : String) (d : Diagnostic) :
    Tells (text file source d) d.kind.text := by
  refine tells_of_line (List.mem_cons_self ..) ?_
  rw [String.toList_append]
  exact List.suffix_append _ _

/-- The last row of what is shown ends with the message. -/
theorem tells_message {span : Span} (place : d.span? = some span) (proper : span.start < span.stop)
    (inside : span.stop ≤ source.toList.length) : Tells (text file source d) d.message := by
  obtain ⟨front, shown⟩ : ∃ front, front ++ d.message ∈
      rows (digits source span) d.message (.of source.toList span) := by
    rcases Extent.shown proper inside with ⟨mark, within⟩ | ⟨opening, skips, closing, across⟩
    · rw [within]
      exact ⟨_, List.mem_cons_of_mem _ (List.mem_cons_of_mem _ List.mem_cons_self)⟩
    · rw [across]
      exact ⟨_, List.mem_append_right _
        (List.mem_cons_of_mem _ (List.mem_cons_of_mem _ List.mem_cons_self))⟩
  have among : front ++ d.message ∈ lines file source d := by
    rw [lines_of_place file source place]
    simp [shown]
  refine tells_of_line among ?_
  rw [String.toList_append]
  exact List.suffix_append _ _

/-- Without a place there is the first line alone. -/
theorem text_of_unplaced (place : d.span? = none) :
    text file source d = s!"Error: {d.kind.text}\n" := by
  rw [text, lines, place]
  simp only [List.map_cons, List.map_nil, String.join_cons, String.join_nil, String.append_empty]
  rfl

/-- And that does not tell what is wrong. -/
theorem untold (own : d.fault.Own) (place : d.span? = none) :
    ¬ Tells (text file source d) d.message := by
  intro tells
  obtain ⟨c, telling, said⟩ := Fault.exists_telling own
  rw [text_of_unplaced place] at tells
  exact Fault.telling_notMem d.kind telling (tells.mem said)

/-- **A report tells what is wrong where it has a place to show.** Of any diagnostic it tells the
kind. It has the whole message if the place is in the text; without a place it is a line that says
the kind, and has the message of no fault that the program finds. So the report on an ASCII text that
is run and refused tells what is wrong with it, the report on what a builder refuses never does, and
that on a jump to a label which is not declared does not if the jump was never written. -/
theorem told_where_placed (file source : String) (d : Diagnostic) :
    Tells (text file source d) d.kind.text ∧
      (∀ span, d.span? = some span → span.start < span.stop → span.stop ≤ source.toList.length →
        Tells (text file source d) d.message) ∧
      (d.span? = none → text file source d = s!"Error: {d.kind.text}\n" ∧
        (d.fault.Own → ¬ Tells (text file source d) d.message)) ∧
      (∀ limit, Text.Ascii source → runSource source limit = some (.error d) →
        Tells (text file source d) d.message) ∧
      (∀ (b : Builder) c, b.call c = .error d → ¬ Tells (text file source d) d.message) ∧
      ∀ (program : Program) limit (m : Machine) c reply, m.call program limit c = some reply →
        reply.answer = .refused d → d.kind = .unresolvedLabel →
          ∃ i, program.get? reply.machine.pointer = some i ∧
            (i.span = .empty → ¬ Tells (text file source d) d.message) ∧
            (i.span.start < i.span.stop → i.span.stop ≤ source.toList.length →
              Tells (text file source d) d.message) := by
  refine ⟨tells_kind file source d, fun span => tells_message, fun nowhere => ?_, ?_, ?_, ?_⟩
  · exact ⟨text_of_unplaced nowhere, fun own => untold own nowhere⟩
  · intro limit ascii refused
    obtain ⟨span, place, proper, inside⟩ := placed_of_runSource refused
    rw [Text.utf8ByteSize_eq_length_iff.mpr ascii] at inside
    exact tells_message place proper inside
  · intro b c refused
    obtain ⟨fault, own, rfl⟩ := Builder.exists_own_of_refused refused
    exact untold own rfl
  · intro program limit m c reply called answer kind
    have refused := Machine.refused_of_call called answer
    obtain ⟨i, fetched, ⟨-, place⟩ | ⟨other, -⟩⟩ := Machine.span?_of_refused refused
    · refine ⟨i, fetched, ?_, ?_⟩
      · intro nowhere
        rw [nowhere, Span.known?_empty] at place
        exact untold (Machine.own_of_refused refused) place
      · intro proper inside
        rw [Span.known?_of_ne (Span.ne_empty (Nat.zero_lt_of_lt proper))] at place
        exact tells_message place proper inside
    · rw [kind] at other
      cases other

/-- A jump that was recorded by a call is refused for its label, and the report does not say for
which one. -/
theorem label_untold :
    let program := (({} : Builder).attemptAll [.jump .always "end"]).program
    ∃ reply d, Machine.start.call program none .run = some reply ∧ reply.answer = .refused d ∧
      d.message = "Unresolved label 'end'" ∧
      text "prog.asm" "jmp end\n" d = "Error: unresolved label\n" ∧
      ¬ Tells (text "prog.asm" "jmp end\n" d) d.message := by
  intro program
  let d := (Fault.unresolvedLabel "end").unplaced
  have replied : (Machine.start.call program none .run).map (·.answer) = some (.refused d) := by cbv
  obtain ⟨reply, called, refused⟩ := Option.map_eq_some_iff.mp replied
  have own : d.fault.Own := by
    rintro kind words ⟨⟩
  exact ⟨reply, d, called, refused, rfl, text_of_unplaced rfl, untold own rfl⟩

end Report
end QuadAsm
