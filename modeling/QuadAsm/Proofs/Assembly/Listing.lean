import QuadAsm.Proofs.Assembly.Agreement
import QuadAsm.Proofs.Assembly.Writable
import QuadAsm.Proofs.Program.Built
import QuadAsm.Proofs.Program.Listing

/-! A listing is the program, written down.

The lines of a listing, without their indexes, are a layout of phrases: each label where it
points, each operation in its turn (`Layout.ofLines`). Recorded from the first index to the last
these phrases make the program again, because at every index all that points there is declared
before the instruction is recorded (`Recorded.next`), and no label points past the end. So
nothing is lost in a listing, and nothing moves (`listing_faithful`). -/
namespace QuadAsm

open Token (Kind)

/-! ### Phrases on lines -/

namespace Phrase

/-- The phrase on a line of its own. -/
def line : Phrase → String
  | label name => Program.labelLine name
  | instruction mnemonic operands => mnemonic ++ " " ++ ", ".intercalate operands

/-- The phrase can be written on a line, operands and all. -/
def Writable : Phrase → Prop
  | label name => Layout.IsName name
  | instruction mnemonic operands =>
    Layout.IsName mnemonic ∧ operands ≠ [] ∧ ∀ operand ∈ operands, Layout.IsOperand operand

end Phrase

namespace Layout

theorem gap_nil : Gap [] := nofun

theorem gap_space : Gap [' '] := by decide

/-- Operands are a series with a comma and a space between them. -/
theorem series {operands : List String} (nonempty : operands ≠ [])
    (fit : ∀ operand ∈ operands, IsOperand operand) :
    Series operands (", ".intercalate operands).toList := by
  induction operands with
  | nil => exact absurd rfl nonempty
  | cons operand operands ih =>
    obtain ⟨fits, fit⟩ := List.forall_mem_cons.mp fit
    cases operands with
    | nil =>
      rw [String.intercalate_singleton]
      exact .one fits
    | cons next operands =>
      have more := Series.more fits gap_nil gap_space (ih (List.cons_ne_nil _ _) fit)
      rw [String.intercalate_cons_cons]
      simpa [String.toList_append] using more

/-- A phrase on a line of its own, behind a gap. -/
theorem ofLine {phrase : Phrase} {phrases : List Phrase} {indent rest : List Char}
    (separates : Gap indent) (writable : phrase.Writable) (later : Layout phrases rest) :
    Layout (phrase :: phrases) (indent ++ (phrase.line.toList ++ '\n' :: rest)) := by
  cases phrase with
  | label name =>
    have tag : Tag name _ := .mk separates writable gap_nil
    have written := Layout.label tag (.blank (.plain gap_nil) later)
    simpa [Phrase.line, Program.labelLine] using written
  | instruction mnemonic operands =>
    obtain ⟨named, nonempty, fit⟩ := writable
    have arguments := Arguments.some (List.cons_ne_nil ' ' []) gap_space (series nonempty fit)
    have line := Line.mk separates named arguments (.plain gap_nil)
    have written := Layout.instruction line later
    simpa [Phrase.line] using written

/-- Lines with a phrase each are a layout of the phrases. -/
theorem ofLines {phrases : List Phrase} (writable : ∀ phrase ∈ phrases, phrase.Writable) :
    Layout phrases (Program.endLines (phrases.map (·.line.toList))) := by
  induction phrases with
  | nil => exact .done (.plain gap_nil)
  | cons phrase phrases ih =>
    obtain ⟨here, later⟩ := List.forall_mem_cons.mp writable
    simpa [Program.endLines] using ofLine gap_nil here (ih later)

end Layout

/-! ### No line breaks inside -/

theorem Layout.IsOperand.newline_free {text : String} (fits : Layout.IsOperand text) :
    '\n' ∉ text.toList := by
  obtain ⟨kind, operand, matched⟩ := fits
  refine Kind.newline_free matched ?_
  rintro rfl
  cases operand

theorem Layout.IsName.isOperand {name : String} (named : Layout.IsName name) :
    Layout.IsOperand name := ⟨.identifier, rfl, named⟩

theorem Layout.Series.newline_free {operands : List String} {w : List Char}
    (series : Layout.Series operands w) : '\n' ∉ w := by
  have gap {w : List Char} (separates : Layout.Gap w) : '\n' ∉ w :=
    fun member => absurd (separates _ member) (by decide)
  induction series with
  | one fits => exact fits.newline_free
  | more fits left right _ ih => simp [fits.newline_free, gap left, gap right, ih]

theorem Phrase.Writable.newline_free {phrase : Phrase} (writable : phrase.Writable) :
    '\n' ∉ phrase.line.toList := by
  cases phrase with
  | label name =>
    have named := (Layout.IsName.isOperand writable).newline_free
    simp [line, Program.labelLine, named]
  | instruction mnemonic operands =>
    obtain ⟨named, nonempty, fit⟩ := writable
    have word := named.isOperand.newline_free
    have listed := (Layout.series nonempty fit).newline_free
    rw [line, String.toList_append, String.toList_append]
    simp only [List.mem_append, word, listed, or_false, false_or]
    decide

/-! ### What a program says -/

theorem Layout.isName_iff {name : String} :
    Layout.IsName name ↔ Text.isName name.toList = true :=
  Token.Kind.matches_iff_spelled.trans Text.isName_iff_spelled.symm

/-- What an operation says. -/
def Operation.phrase (operation : Operation) : Phrase :=
  .instruction operation.opcode.name (operation.operands.map Operand.text)

theorem Operation.line_phrase (operation : Operation) :
    operation.phrase.line = operation.text := rfl

theorem Datum.isOperand (d : Datum) : Layout.IsOperand d.text := by
  cases d with
  | register r =>
    exact (Layout.isName_iff.mpr r.isName_name).isOperand
  | literal value =>
    exact ⟨.literal .decimal, rfl, Kind.matches_iff_spelled.mpr (Numeral.spelled_toString value)⟩

theorem Operation.Writable.phrase {operation : Operation} (writable : operation.Writable) :
    operation.phrase.Writable := by
  refine ⟨Layout.isName_iff.mpr ?_, ?_, ?_⟩
  · exact operation.opcode.isName_name
  · cases operation <;> exact List.cons_ne_nil _ _
  · refine List.forall_mem_map.mpr fun operand member => ?_
    rcases Operation.mem_operands member with ⟨d, rfl⟩ | ⟨name, rfl, target⟩
    · exact d.isOperand
    · exact (Layout.isName_iff.mpr (writable name target).1).isOperand

/-- The call an operation stands for records it. -/
theorem Operation.entry_phrase {operation : Operation} (writable : operation.Writable) :
    operation.phrase.call.entry = .ok (.instruction ⟨operation, .empty⟩) := by
  simp only [phrase, Phrase.call, Builder.Call.entry, Entry.ofTexts, read_texts writable]

namespace Program

variable {program : Program} {index : Nat}

theorem mem_namesAt_iff {name : String} :
    name ∈ namesAt program.labels.toList index ↔ program.label? name = some index :=
  mem_namesAt.trans Std.ExtTreeMap.mem_toList_iff_getElem?_eq_some

/-- What the listing says at an index. -/
def phrasesAt (program : Program) (index : Nat) : List Phrase :=
  (namesAt program.labels.toList index).map .label ++
    (program.get? index).toList.map fun i => i.operation.phrase

/-- What the listing says. -/
def phrases (program : Program) : List Phrase :=
  (List.range (program.size + 1)).flatMap program.phrasesAt

theorem Writable.phrasesAt (writable : program.Writable) :
    ∀ phrase ∈ program.phrasesAt index, phrase.Writable := by
  refine List.forall_mem_append.mpr ⟨List.forall_mem_map.mpr ?_, List.forall_mem_map.mpr ?_⟩
  · intro name member
    exact Layout.isName_iff.mpr (writable.labels name index (mem_namesAt_iff.mp member))
  · intro i member
    have found : program.instructions[index]? = some i := Option.mem_toList.mp member
    exact (writable.operations i (Array.mem_of_getElem? found)).phrase

/-- Every line of the listing says one phrase behind its index. -/
theorem linesAt_phrases (writable : program.Writable) :
    (program.linesAt (namesAt program.labels.toList index) index).map
        (fun line => unnumberedLine line.toList) =
      (program.phrasesAt index).map (·.line.toList) := by
  rw [linesAt, Program.phrasesAt, List.map_append, List.map_append, List.map_map, List.map_map,
    List.map_map, List.map_map]
  refine congrArg₂ (· ++ ·) ?_ ?_
  · refine List.map_congr_left fun name member => ?_
    exact unnumberedLine_labelLine (writable.labels name index (mem_namesAt_iff.mp member))
  · refine List.map_congr_left fun i _ => ?_
    rw [Function.comp_apply, Function.comp_apply, Operation.line_phrase]
    exact unnumberedLine_instructionLine index i

theorem newline_free_linesAt (writable : program.Writable) :
    ∀ line ∈ program.linesAt (namesAt program.labels.toList index) index, '\n' ∉ line.toList := by
  have free (phrase : Phrase) (member : phrase ∈ program.phrasesAt index) :=
    (writable.phrasesAt phrase member).newline_free
  obtain ⟨labels, instructions⟩ := List.forall_mem_append.mp free
  refine List.forall_mem_append.mpr ⟨List.forall_mem_map.mpr fun name member => ?_,
    List.forall_mem_map.mpr fun i member => ?_⟩
  · exact labels _ (List.mem_map_of_mem member)
  · have text := instructions _ (List.mem_map_of_mem member)
    rw [Operation.line_phrase, ← Instruction.text] at text
    rw [toList_instructionLine]
    intro member
    rcases List.mem_append.mp member with gap | member
    · exact absurd (List.eq_of_mem_replicate gap) (by decide)
    · rcases List.mem_append.mp member with digit | rest
      · exact absurd (Numeral.isDigit_of_mem_repr _ digit) (by decide)
      · exact text (by simpa using rest)

/-- Without its indexes the listing is the lines of its phrases. -/
theorem toList_unnumbered_listing (writable : program.Writable) :
    (unnumbered program.listing).toList =
      endLines (program.phrases.map (·.line.toList)) := by
  have listing : program.listing = String.ofList (endLines (program.lines.map String.toList)) := by
    rw [← String.toList_inj, String.toList_ofList, Program.listing, String.toList_join, endLines,
      List.flatMap_map, List.flatMap_map]
    simp only [String.toList_append]
    rfl
  have single : ∀ line ∈ program.lines.map String.toList, '\n' ∉ line := by
    rw [lines_eq]
    refine List.forall_mem_map.mpr (List.forall_mem_flatMap.mpr ?_)
    exact fun index _ => newline_free_linesAt writable
  rw [listing, toList_unnumbered single, lines_eq, List.map_map, List.map_flatMap, phrases,
    List.map_flatMap]
  exact congrArg _ (List.flatMap_congr fun index _ => linesAt_phrases writable)

end Program

/-! ### Recording a listing -/

namespace Builder

/-- Calls that ask for these entries record them. -/
theorem callAll_of_entries {calls : List Call} {entries : List Entry}
    (asked : calls.map Call.entry = entries.map .ok) (b : Builder) :
    b.callAll calls = .ok (b.recordAll entries) := by
  induction calls generalizing b entries with
  | nil =>
    obtain rfl := List.map_eq_nil_iff.mp asked.symm
    rfl
  | cons c calls ih =>
    obtain ⟨entry, entries, rfl, first, later⟩ := List.map_eq_cons_iff.mp asked.symm
    rw [callAll_cons_ok first.symm]
    exact ih later.symm _

theorem recordAll_append (b : Builder) (entries others : List Entry) :
    b.recordAll (entries ++ others) = (b.recordAll entries).recordAll others :=
  List.foldl_append ..

theorem instructions_recordAll_labels (b : Builder) (names : List String) :
    (b.recordAll (names.map .label)).program.instructions = b.program.instructions := by
  induction names generalizing b with
  | nil => rfl
  | cons name names ih => exact ih _

/-- Labels declared one after the other point at one place. -/
theorem label?_recordAll_labels (b : Builder) (names : List String) (other : String) :
    (b.recordAll (names.map .label)).program.label? other =
      if other ∈ names then some b.program.size else b.program.label? other := by
  induction names generalizing b with
  | nil => rfl
  | cons name names ih =>
    show ((b.record (.label name)).recordAll _).program.label? other = _
    rw [ih, size_record_label, label?_record_label]
    by_cases later : other ∈ names
    · simp [later]
    · by_cases here : name = other
      · simp [here]
      · simp [later, here, Ne.symm here]

end Builder

/-- A layout of phrases that ask for these entries is assembled to what they record, but for
places. -/
theorem Layout.recorded {phrases : List Phrase} {entries : List Entry} {source : String}
    (layout : Layout phrases source.toList)
    (asked : (phrases.map Phrase.call).map Builder.Call.entry = entries.map .ok) :
    ∃ program, assemble source = .ok program ∧
      program.unplaced = (({} : Builder).recordAll entries).program := by
  -- The text and the calls of its phrases agree, and the calls record the entries.
  have called := Builder.callAll_of_entries asked {}
  have agreed := layout.assembled
  obtain ⟨program, assembled⟩ := agreed.ok_iff.mpr ⟨_, called⟩
  rw [assembled, called] at agreed
  exact ⟨program, assembled, agreed.same_program.symm⟩

namespace Program

variable {program : Program} {b : Builder} {index : Nat}

/-- What recording the listing adds at an index. -/
def entriesAt (program : Program) (index : Nat) : List Entry :=
  (namesAt program.labels.toList index).map .label ++
    (program.get? index).toList.map fun i => .instruction i.unplaced

theorem entries_phrasesAt (writable : program.Writable) :
    (program.phrasesAt index).map (·.call.entry) = (program.entriesAt index).map .ok := by
  rw [phrasesAt, entriesAt, List.map_append, List.map_append, List.map_map, List.map_map,
    List.map_map, List.map_map]
  refine congrArg₂ (· ++ ·) rfl (List.map_congr_left fun i member => ?_)
  have found : program.instructions[index]? = some i := Option.mem_toList.mp member
  exact Operation.entry_phrase (writable.operations i (Array.mem_of_getElem? found))

/-- The builder has recorded the program up to an index. -/
structure Recorded (program : Program) (index : Nat) (b : Builder) : Prop where
  instructions : b.program.instructions.toList =
    (program.instructions.toList.take index).map Instruction.unplaced
  labels : ∀ name, b.program.label? name = (program.label? name).filter (· < index)

theorem recorded_zero : program.Recorded 0 {} := by
  refine ⟨rfl, fun name => ?_⟩
  cases program.label? name <;> simp [label?]

theorem Recorded.size (h : program.Recorded index b) (bound : index ≤ program.size) :
    b.program.size = index := by
  have length := congrArg List.length h.instructions
  rw [List.length_map, List.length_take] at length
  exact length.trans (Nat.min_eq_left bound)

/-- What stands at an index takes the builder to the next. -/
theorem Recorded.next (h : program.Recorded index b) (bound : index ≤ program.size) :
    program.Recorded (index + 1) (b.recordAll (program.entriesAt index)) := by
  rw [entriesAt, Builder.recordAll_append]
  -- All that points here is declared while the builder stands here, before the instruction.
  have before := Builder.instructions_recordAll_labels b (namesAt program.labels.toList index)
  have labels (name : String) :
      (b.recordAll ((namesAt program.labels.toList index).map .label)).program.label? name =
        (program.label? name).filter (· < index + 1) := by
    rw [Builder.label?_recordAll_labels, h.size bound, h.labels]
    simp only [mem_namesAt_iff]
    cases declared : program.label? name with
    | none => rfl
    | some place => grind
  have taken : program.instructions.toList.take (index + 1) =
      program.instructions.toList.take index ++ (program.get? index).toList := by
    rw [List.take_add_one, Array.getElem?_toList, get?]
  cases found : program.get? index with
  | none =>
    refine ⟨?_, labels⟩
    rw [taken, found, Option.toList_none, List.append_nil]
    exact (congrArg Array.toList before).trans h.instructions
  | some i =>
    refine ⟨?_, labels⟩
    rw [taken, found, List.map_append, ← h.instructions, ← before]
    exact Array.toList_push

theorem recorded_range (count : Nat) (bound : count ≤ program.size + 1) :
    program.Recorded count
      (({} : Builder).recordAll ((List.range count).flatMap program.entriesAt)) := by
  induction count with
  | zero => exact recorded_zero
  | succ count ih =>
    rw [List.range_succ, List.flatMap_append, List.flatMap_singleton, Builder.recordAll_append]
    exact (ih (by omega)).next (by omega)

/-- Recording all of the listing records the program. -/
theorem Recorded.whole (h : program.Recorded (program.size + 1) b) (bounded : program.Bounded) :
    b.program = program.unplaced := by
  refine ext_label? ?_ fun name => ?_
  · rw [← Array.toList_inj, h.instructions, unplaced, Array.toList_map]
    exact congrArg _ (List.take_of_length_le (Nat.le_succ _))
  · rw [h.labels]
    cases declared : program.label? name with
    | none => exact declared.symm
    | some place =>
      have inside : place < program.size + 1 := Nat.lt_succ_of_le (bounded name place declared)
      rw [Option.filter_some, if_pos (decide_eq_true inside)]
      exact declared.symm

/-- Without its indexes the listing assembles, and to the same program but for places. -/
theorem assemble_unnumbered_listing (bounded : program.Bounded) (writable : program.Writable) :
    ∃ again, assemble (unnumbered program.listing) = .ok again ∧
      again.unplaced = program.unplaced := by
  have layout : Layout program.phrases (unnumbered program.listing).toList := by
    rw [toList_unnumbered_listing writable]
    exact .ofLines (List.forall_mem_flatMap.mpr fun index _ => writable.phrasesAt)
  have asked : (program.phrases.map Phrase.call).map Builder.Call.entry =
      ((List.range (program.size + 1)).flatMap program.entriesAt).map .ok := by
    rw [List.map_map, phrases, List.map_flatMap, List.map_flatMap]
    exact List.flatMap_congr fun index _ => entries_phrasesAt writable
  obtain ⟨again, assembled, recorded⟩ := layout.recorded asked
  exact ⟨again, assembled, recorded.trans ((recorded_range _ (Nat.le_refl _)).whole bounded)⟩

theorem operations_unplaced (program : Program) :
    program.unplaced.instructions.map Instruction.operation =
      program.instructions.map Instruction.operation := by
  rw [unplaced, Array.map_map]
  rfl

/-- **A listing is the program, written down.** Take a program whose labels are names and whose
jumps go to names that no register has, as those of every assembled program do. In whatever order
the labels are enumerated, its listing is the same, and without the column of indexes it assembles
to the same operations in the same order, with the same labels. -/
theorem listing_faithful :
    (∀ source program, assemble source = .ok program → program.Built ∧ program.Writable) ∧
      ∀ program : Program, program.Built → program.Writable →
        ∀ labels : List (String × Nat), labels.Perm program.labels.toList →
          program.listingOf labels = program.listing ∧
            ∃ again, assemble (unnumbered (program.listingOf labels)) = .ok again ∧
              again.instructions.map Instruction.operation =
                program.instructions.map Instruction.operation ∧
              again.labels = program.labels := by
  refine ⟨fun source program assembled => ⟨.source assembled, writable_of_assemble assembled⟩, ?_⟩
  intro program built writable labels same
  have listed := listingOf_eq_listing same
  obtain ⟨again, assembled, alike⟩ := assemble_unnumbered_listing built.bounded writable
  have table : again.unplaced.labels = program.unplaced.labels := congrArg _ alike
  refine ⟨listed, again, by rwa [listed], ?_, table⟩
  calc again.instructions.map Instruction.operation
      = again.unplaced.instructions.map Instruction.operation := again.operations_unplaced.symm
    _ = program.unplaced.instructions.map Instruction.operation := by rw [alike]
    _ = program.instructions.map Instruction.operation := program.operations_unplaced

/-- The least literal, two labels at one place and one behind the end, enumerated backwards. -/
theorem listing_faithful_least :
    ∃ program again,
      assemble "top: mov ax, -0x8000000000000000\nb: a: jl top\nend:" = .ok program ∧
        assemble (unnumbered (program.listingOf program.labels.toList.reverse)) = .ok again ∧
        again.instructions.map Instruction.operation =
          #[.mov .ax (.literal Int64.minValue), .jump .less "top"] ∧
        again.label? "end" = some 2 := by
  have made : (assemble "top: mov ax, -0x8000000000000000\nb: a: jl top\nend:").toOption.map
        (fun p => (p.instructions.map Instruction.operation, p.label? "end")) =
      some (#[.mov .ax (.literal Int64.minValue), .jump .less "top"], some 2) := by
    decide +kernel
  cases assembled : assemble "top: mov ax, -0x8000000000000000\nb: a: jl top\nend:" with
  | error d =>
    rw [assembled] at made
    cases made
  | ok program =>
    rw [assembled] at made
    obtain ⟨operations, last⟩ := Prod.mk.inj (Option.some.inj made)
    obtain ⟨built, writable⟩ := listing_faithful.1 _ program assembled
    obtain ⟨-, again, reassembled, same, table⟩ :=
      listing_faithful.2 program built writable _ (List.reverse_perm _)
    refine ⟨program, again, rfl, reassembled, same.trans operations, ?_⟩
    rw [label?, table]
    exact last

end Program

end QuadAsm
