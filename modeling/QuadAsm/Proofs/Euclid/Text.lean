import QuadAsm.Assembly.Run
import QuadAsm.Proofs.Assembly.Listing
import QuadAsm.Proofs.Euclid.Loop

/-! The text of a program that computes greatest common divisors.

The text is a layout of what the program's entries say, line by line (`layout`): a remark, lines that
are indented, a label before the operation on its line, and two labels alone. So it is assembled, and
to a program that carries the operations and the labels (`exists_carries`), whatever the two numbers
are. Its run ends, with their greatest common divisor (`computes_gcd`). -/
namespace QuadAsm

/-! ### Entries that are written down -/

namespace Entry

variable {entry : Entry}

/-- What an entry says when it is written. -/
def phrase : Entry → Phrase
  | label name => .label name
  | instruction i => i.operation.phrase

theorem Writable.phrase (writable : entry.Writable) : entry.phrase.Writable := by
  cases entry with
  | label name => exact Layout.isName_iff.mpr writable
  | instruction i => exact Operation.Writable.phrase writable

/-- What an entry says asks for it again, but for its place. -/
theorem Writable.entry_phrase (writable : entry.Writable) :
    entry.phrase.call.entry = .ok entry.unplaced := by
  cases entry with
  | label name => rfl
  | instruction i => exact Operation.entry_phrase writable

end Entry

/-- The operations that are recorded are those of the entries, in order. -/
theorem Builder.operations_recordAll (b : Builder) (entries : List Entry) :
    (b.recordAll entries).program.instructions.toList.map Instruction.operation =
      b.program.instructions.toList.map Instruction.operation ++
        entries.filterMap Entry.operation? := by
  induction entries generalizing b with
  | nil => exact (List.append_nil _).symm
  | cons entry entries ih =>
    show ((b.record entry).recordAll entries).program.instructions.toList.map _ = _
    rw [ih]
    cases entry with
    | label name => rfl
    | instruction i => simp [record, Entry.operation?]

/-! ### Lines -/

namespace Layout

/-- These lines, each with its end, are a layout of the phrases. -/
def OnLines (phrases : List Phrase) (lines : List String) : Prop :=
  Layout phrases (Program.endLines (lines.map String.toList))

namespace OnLines

variable {phrase : Phrase} {phrases : List Phrase} {lines : List String}

theorem nil : OnLines [] [] := .done (.plain gap_nil)

theorem remark {text : String} (line : '\n' ∉ text.toList) (later : OnLines phrases lines) :
    OnLines phrases ((";" ++ text) :: lines) := by
  have comment := Layout.blank (.comment gap_nil fun c member same => line (same ▸ member)) later
  simpa [OnLines, Program.endLines] using comment

theorem indented {indent line : String} (separates : Gap indent.toList)
    (split : line = indent ++ phrase.line) (writable : phrase.Writable)
    (later : OnLines phrases lines) : OnLines (phrase :: phrases) (line :: lines) := by
  have written := ofLine separates writable later
  simpa [OnLines, Program.endLines, split] using written

/-- A label stands before what else is on its line. -/
theorem labelled {name line rest : String} (split : line = name ++ ":" ++ rest) (named : IsName name)
    (later : OnLines phrases (rest :: lines)) :
    OnLines (.label name :: phrases) (line :: lines) := by
  have tag : Tag name _ := .mk gap_nil named gap_nil
  have written := Layout.label tag later
  simpa [OnLines, Program.endLines, split] using written

end OnLines

end Layout

namespace Euclid

variable {a b : Nat} {remark : String} {program : Program}

/-! ### The text -/

/-- The lines of the text, with a remark in the first one. -/
def lines (remark : String) (a b : Nat) : List String :=
  [s!";{remark}",
    s!"    mov ax, {a}",
    s!"    mov bx, {b}",
    "loop: cmp ax, bx",
    "    je done",
    "    jg reduce_a",
    "    dec bx, ax",
    "    jmp loop",
    "reduce_a:",
    "    dec ax, bx",
    "    jmp loop",
    "done:"]

/-- The text of the program for two numbers. -/
def source (remark : String) (a b : Nat) : String :=
  String.join ((lines remark a b).map (· ++ "\n"))

theorem toList_source (remark : String) (a b : Nat) : (source remark a b).toList =
    Program.endLines ((lines remark a b).map String.toList) := by
  rw [source, String.toList_join, Program.endLines, List.flatMap_map, List.flatMap_map]
  simp only [String.toList_append]
  rfl

theorem writable_entries (a b : Nat) : ∀ entry ∈ entries a b, entry.Writable := by
  have loop : IsTarget "loop" := ⟨by decide, by decide +kernel⟩
  have reduce_a : IsTarget "reduce_a" := ⟨by decide, by decide +kernel⟩
  have done : IsTarget "done" := ⟨by decide, by decide +kernel⟩
  have datum {operation : Operation} (none : operation.target? = none) :
      (Entry.instruction ⟨operation, .empty⟩).Writable := by
    intro name target
    rw [none] at target
    cases target
  have jump {condition : Condition} {label : String} (target : IsTarget label) :
      (Entry.instruction ⟨.jump condition label, .empty⟩).Writable := by
    rintro name ⟨⟩
    exact target
  simp only [entries, List.forall_mem_cons, List.not_mem_nil, false_implies, implies_true, and_true]
  exact ⟨datum rfl, datum rfl, loop.1, datum rfl, jump done, jump reduce_a, datum rfl, jump loop,
    reduce_a.1, datum rfl, jump loop, done.1⟩

/-- A number that a register can hold is written as the word is. -/
theorem toString_ofNat (lt : a < 2 ^ 63) : toString (Int64.ofNat a) = toString a := by
  show toString (Int64.ofNat a).toInt = toString a
  rw [Int64.toInt_ofNat_of_lt lt]
  rfl

/-- The line that loads a number. -/
theorem line_mov {r : Register} {start : String} (lt : a < 2 ^ 63)
    (names : start = "    mov " ++ r.name ++ ", ") :
    start ++ toString a = "    " ++ (Operation.mov r (.literal (.ofNat a))).phrase.line := by
  show start ++ toString a =
    "    " ++ ("mov" ++ " " ++ ", ".intercalate [r.name, toString (Int64.ofNat a)])
  rw [names, toString_ofNat lt, String.intercalate_cons_cons, String.intercalate_singleton]
  simp only [String.append_assoc]
  rfl

/-- The text is a layout of what the entries say. -/
theorem layout (line : '\n' ∉ remark.toList) (a_lt : a < 2 ^ 63) (b_lt : b < 2 ^ 63) :
    Layout ((entries a b).map Entry.phrase) (source remark a b).toList := by
  have writable : ∀ phrase ∈ (entries a b).map Entry.phrase, phrase.Writable :=
    List.forall_mem_map.mpr fun entry member => (writable_entries a b entry member).phrase
  simp only [entries, List.map_cons, List.map_nil, List.forall_mem_cons] at writable
  obtain ⟨mov, mov', loop, cmp, je, jg, dec, jmp, reduce_a, dec', jmp', done, -⟩ := writable
  have none : Layout.Gap "".toList := by decide
  have one : Layout.Gap " ".toList := by decide
  have four : Layout.Gap "    ".toList := by decide
  have laid : Layout.OnLines ((entries a b).map Entry.phrase) (lines remark a b) :=
    .remark line <|
    .indented four (line_mov a_lt rfl) mov <|
    .indented four (line_mov b_lt rfl) mov' <|
    .labelled rfl loop <|
    .indented one rfl cmp <|
    .indented four rfl je <|
    .indented four rfl jg <|
    .indented four rfl dec <|
    .indented four rfl jmp <|
    .indented none rfl reduce_a <|
    .indented four rfl dec' <|
    .indented four rfl jmp' <|
    .indented none rfl done .nil
  rw [toList_source]
  exact laid

/-! ### The program -/

/-- What the entries record carries them. -/
theorem carries_of_recorded
    (same : program.unplaced = (({} : Builder).recordAll (entries a b)).program) :
    Carries a b program := by
  have labels (name : String) : program.label? name =
      if "done" = name then some 9 else if "reduce_a" = name then some 7
        else if "loop" = name then some 2 else none := by
    show program.unplaced.label? name = _
    rw [same]
    simp only [Builder.recordAll, entries, List.foldl_cons, List.foldl_nil,
      Builder.label?_record_label, Builder.label?_record_instruction, Builder.size_record_label,
      Builder.size_record_instruction]
    rfl
  refine ⟨?_, labels "loop", labels "reduce_a", labels "done"⟩
  rw [← Array.toList_map, ← program.operations_unplaced, same, Array.toList_map,
    Builder.operations_recordAll]
  rfl

/-- The text is assembled, to a program that carries the entries. -/
theorem exists_carries (line : '\n' ∉ remark.toList) (a_lt : a < 2 ^ 63) (b_lt : b < 2 ^ 63) :
    ∃ program, assemble (source remark a b) = .ok program ∧ Carries a b program := by
  have asked : (((entries a b).map Entry.phrase).map Phrase.call).map Builder.Call.entry =
      (entries a b).map Except.ok := by
    rw [List.map_map, List.map_map]
    -- No entry has a place that would be lost.
    show _ = ((entries a b).map Entry.unplaced).map Except.ok
    rw [List.map_map]
    exact List.map_congr_left fun entry member => (writable_entries a b entry member).entry_phrase
  obtain ⟨program, assembled, same⟩ := (layout line a_lt b_lt).recorded asked
  exact ⟨program, assembled, carries_of_recorded same⟩

/-- **The text computes greatest common divisors.** For all positive numbers that registers can hold
and whatever the remark says, the text with these numbers in decimal digits is assembled and its run,
under no limit, ends; the first two registers then hold their greatest common divisor and the other
two are zero. -/
theorem computes_gcd (line : '\n' ∉ remark.toList) (a_pos : 1 ≤ a) (a_le : a ≤ 2 ^ 63 - 1)
    (b_pos : 1 ≤ b) (b_le : b ≤ 2 ^ 63 - 1) :
    ∃ bank, runSource (source remark a b) none = some (.ok bank) ∧
      (bank.get .ax).toInt = a.gcd b ∧ (bank.get .bx).toInt = a.gcd b ∧
      bank.get .cx = 0 ∧ bank.get .dx = 0 := by
  have a_lt : a < 2 ^ 63 := by omega
  have b_lt : b < 2 ^ 63 := by omega
  obtain ⟨program, assembled, carries⟩ := exists_carries line a_lt b_lt
  have small : a.gcd b < 2 ^ 63 := Nat.lt_of_le_of_lt (Nat.gcd_le_left b a_pos) a_lt
  have held : (Int64.ofNat (a.gcd b)).toInt = a.gcd b := Int64.toInt_ofNat_of_lt small
  refine ⟨bank (a.gcd b) (a.gcd b), ?_, held, held, rfl, rfl⟩
  rw [runSource, assembled]
  exact carries.run a_pos b_pos a_lt b_lt

/-- A text as it is written, and the largest number with one that is subtracted from it as often as
can be. -/
theorem computes_gcd_of_48_18 :
    let written := "; Euclid by subtraction: ax = gcd(48, 18)\n    mov ax, 48\n    mov bx, 18\n" ++
      "loop: cmp ax, bx\n    je done\n    jg reduce_a\n    dec bx, ax\n    jmp loop\n" ++
      "reduce_a:\n    dec ax, bx\n    jmp loop\ndone:\n"
    (∃ bank, runSource written none = some (.ok bank) ∧
      (bank.get .ax).toInt = 6 ∧ (bank.get .bx).toInt = 6) ∧
      ∃ bank, runSource (source "" (2 ^ 63 - 1) 1) none = some (.ok bank) ∧
        (bank.get .ax).toInt = 1 ∧ (bank.get .bx).toInt = 1 := by
  intro written
  let remark := " Euclid by subtraction: ax = gcd(48, 18)"
  have line : '\n' ∉ remark.toList := by decide +kernel
  have same : source remark 48 18 = written := by decide +kernel
  have empty : '\n' ∉ "".toList := by decide
  obtain ⟨bank, ended, ax, bx, _⟩ := @computes_gcd 48 18 remark line (by omega) (by omega)
    (by omega) (by omega)
  obtain ⟨bank', ended', ax', bx', _⟩ := @computes_gcd (2 ^ 63 - 1) 1 "" empty (by omega)
    (Nat.le_refl _) (by omega) (by omega)
  exact ⟨⟨bank, same ▸ ended, ax, bx⟩, bank', ended', ax', bx'⟩

end Euclid

end QuadAsm
