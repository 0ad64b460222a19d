import QuadAsm.Proofs.Assembly.Layout

/-! Texts and builders agree.

Assembling a layout of some phrases and calling a builder with the phrases in order come to
the same (`assemble_agrees`): the two succeed together, with the same program but for the
places of its instructions, and fail together, with the fault of the first phrase that is
refused. -/
namespace QuadAsm

open Token (Kind)

/-- Assembling a layout records the phrases that it is a layout of. -/
theorem Layout.assembled {phrases : List Phrase} {source : String}
    (layout : Layout phrases source.toList) :
    Agrees (assemble source) (({} : Builder).callAll (phrases.map Phrase.call)) := by
  obtain ⟨tokens, read, statements, derives, rfl⟩ := layout.yields 0
  rw [assemble, Assembly.ofSource, Token.read_of_reads read, List.map_map]
  show Agrees (Assembly.ofCursor {} (.ofTokens tokens)).result _
  rw [Assembly.ofCursor_eq_ofItems, Cursor.ofTokens, derives.remaining]
  have nowhere : ({} : Builder).program = ({} : Builder).program.unplaced := by
    simp [Program.unplaced]
  exact agrees statements nowhere

/-- **A text and the calls it stands for agree.** However some phrases are laid out as a text,
assembling it succeeds just when a builder takes the phrases in order. Then the two programs
have the same operations in the same order and the same labels; only places differ. When
they fail, it is with one kind and one message, those of the first phrase that the builder
refuses. -/
theorem assemble_agrees {phrases : List Phrase} {source : String}
    (layout : Layout phrases source.toList) :
    ((∃ program, assemble source = .ok program) ↔
        ∃ b, ({} : Builder).callAll (phrases.map Phrase.call) = .ok b) ∧
      (∀ program b, assemble source = .ok program →
        ({} : Builder).callAll (phrases.map Phrase.call) = .ok b →
          b.program = program.unplaced) ∧
      (∀ d e, assemble source = .error d →
        ({} : Builder).callAll (phrases.map Phrase.call) = .error e →
          d.kind = e.kind ∧ d.message = e.message ∧
            ∃ before phrase after between, phrases = before ++ phrase :: after ∧
              ({} : Builder).callAll (before.map Phrase.call) = .ok between ∧
                between.call phrase.call = .error e) := by
  have agreed := layout.assembled
  refine ⟨agreed.ok_iff, ?_, ?_⟩
  · intro program b assembled called
    rw [assembled, called] at agreed
    exact agreed.same_program
  · intro d e assembled called
    rw [assembled, called] at agreed
    have fault := agreed.same_fault
    obtain ⟨calls, _, later, between, split, accepted, refused⟩ := Builder.first_refused called
    obtain ⟨before, rest, rfl, rfl, behind⟩ := List.map_eq_append_iff.mp split
    obtain ⟨phrase, after, rfl, rfl, rfl⟩ := List.map_eq_cons_iff.mp behind
    refine ⟨congrArg Fault.kind fault, congrArg Fault.message fault, ?_⟩
    exact ⟨before, phrase, after, between, rfl, accepted, refused⟩

/-- A loop with a comment, a blank line, and a label before its instruction. -/
theorem assemble_agrees_loop :
    ∃ program, assemble "top: inc ax ; up\n\tcmp ax,0x3\r\n\n jl top" = .ok program ∧
      program.unplaced.instructions.map Instruction.operation =
        #[.inc .ax (.literal 1), .cmp (.register .ax) (.literal 3), .jump .less "top"] := by
  have name {c : Char} {cs : List Char} (start : Text.isNameStart c = true)
      (part : cs.all Text.isNamePart = true) : Kind.identifier.pattern.Matches (c :: cs) :=
    .plain (.head start (.run (List.all_eq_true.mp part)))
  have top : Layout.IsName "top" := name (by decide) (by decide)
  have inc : Layout.IsName "inc" := name (by decide) (by decide)
  have cmp : Layout.IsName "cmp" := name (by decide) (by decide)
  have jl : Layout.IsName "jl" := name (by decide) (by decide)
  have ax : Layout.IsOperand "ax" := ⟨.identifier, rfl, name (by decide) (by decide)⟩
  have three : Layout.IsOperand "0x3" := ⟨.literal .hexadecimal, rfl,
    .plain (.head (by decide) (.head (by decide) (.head (by decide) (.run nofun))))⟩
  have none : Layout.Gap [] := by decide
  have space : Layout.Gap [' '] := by decide
  have tab : Layout.Gap ['\t'] := by decide
  have carriage : Layout.Gap ['\r'] := by decide
  have remark : Layout.Margin ([' '] ++ ';' :: [' ', 'u', 'p']) := .comment space (by simp)
  have increment := Layout.Line.mk space inc (.some (by decide) space (.one ax)) remark
  have compare := Layout.Line.mk tab cmp
    (.some (by decide) space (.more ax none none (.one three))) (.plain carriage)
  have jump := Layout.Line.mk space jl
    (.some (by decide) space (.one ⟨.identifier, rfl, top⟩)) (.plain none)
  have layout : Layout [.label "top", .instruction "inc" ["ax"], .instruction "cmp" ["ax", "0x3"],
      .instruction "jl" ["top"]] "top: inc ax ; up\n\tcmp ax,0x3\r\n\n jl top".toList :=
    .label (.mk none top none) (.instruction increment (.instruction compare
      (.blank (.plain none) (.last jump))))
  obtain ⟨accepted, same, _⟩ := assemble_agrees layout
  let calls : List Builder.Call :=
    [.label "top", .texts "inc" ["ax"], .texts "cmp" ["ax", "0x3"], .texts "jl" ["top"]]
  have recorded : (({} : Builder).callAll calls).toOption.map
        (fun b => b.program.instructions.map Instruction.operation) =
      some #[.inc .ax (.literal 1), .cmp (.register .ax) (.literal 3), .jump .less "top"] := by
    decide +kernel
  cases called : ({} : Builder).callAll calls with
  | error e =>
    rw [called] at recorded
    cases recorded
  | ok b =>
    rw [called] at recorded
    obtain ⟨program, assembled⟩ := accepted.mpr ⟨b, called⟩
    refine ⟨program, assembled, ?_⟩
    rw [← same program b assembled called]
    exact Option.some.inj recorded

end QuadAsm
