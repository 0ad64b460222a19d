import QuadAsm.Proofs.Statement.Places
import QuadAsm.Proofs.Token.Slices

/-! Instructions cut out of their text.

An instruction starts where its mnemonic does and stops where its last operand does
(`instruction_span`), so the piece of the text that it covers is read as its tokens and nothing else,
and makes the one statement that it is, nearer to the start (`exists_alone`). The line ends behind
it, so whatever comes later comes behind a newline (`Derives.apart`). -/
namespace QuadAsm.Cursor

variable {tokens given found : List Token} {mnemonic last : Token} {source : String} {lower upper : Nat}

/-! ### Where an instruction stands -/

/-- The last token of some operands is one of them. -/
theorem Listed.exists_getLast (h : Listed given found) :
    ∃ last, given.getLast? = .some last ∧ found.getLast? = .some last := by
  induction h with
  | @one operand _ => exact ⟨operand, rfl, rfl⟩
  | more _ _ _ ih =>
    obtain ⟨last, ends, same⟩ := ih
    exact ⟨last, by simp [List.getLast?_cons, ends], by simp [List.getLast?_cons, same]⟩

theorem Arguments.getLast_mem (h : Arguments given found)
    (ends : (mnemonic :: given).getLast? = .some last) : last ∈ mnemonic :: found := by
  cases h with
  | none => exact List.mem_of_getLast? ends
  | some listed =>
    obtain ⟨final, ends', same⟩ := listed.exists_getLast
    rw [List.getLast?_cons, ends'] at ends
    cases ends
    exact List.mem_cons_of_mem _ (List.mem_of_getLast? same)

/-- An instruction is where its tokens are, from the first to the last. -/
theorem instruction_span (arguments : Arguments given found)
    (ends : (mnemonic :: given).getLast? = .some last)
    (inside : ∀ token ∈ mnemonic :: given,
      token.span.Lies source mnemonic.span.start last.span.stop) :
    (instruction mnemonic found).span = ⟨mnemonic.span.start, last.span.stop⟩ := by
  have inside (token : Token) (member : token ∈ mnemonic :: found) :=
    inside token (List.cons_subset_cons mnemonic arguments.subset member)
  have low : mnemonic.span.start ≤ (instruction mnemonic found).span.start :=
    le_instruction_start_iff.mpr fun token member => (inside token member).lower
  have high : (instruction mnemonic found).span.stop ≤ last.span.stop :=
    instruction_stop_le_iff.mpr fun token member => (inside token member).upper
  have first : (instruction mnemonic found).span.start ≤ mnemonic.span.start :=
    le_instruction_start_iff.mp (Nat.le_refl _) mnemonic List.mem_cons_self
  have final : last.span.stop ≤ (instruction mnemonic found).span.stop :=
    instruction_stop_le_iff.mp (Nat.le_refl _) last (arguments.getLast_mem ends)
  rw [← Nat.le_antisymm first low, ← Nat.le_antisymm high final]

/-! ### One instruction alone -/

/-- An instruction among the statements of some tokens is made of tokens that follow each other. -/
theorem instruction_of_mem {name : String} {texts : List String} {span : Span}
    (h : .ok (.instruction name texts span) ∈ (ofTokens tokens).remaining) :
    ∃ before mnemonic given found after, tokens = before ++ mnemonic :: given ++ after ∧
      mnemonic.kind = .identifier ∧ Arguments given found ∧
      Statement.instruction name texts span = instruction mnemonic found := by
  obtain ⟨first, more, rest, _, ⟨before, rfl⟩, read⟩ := mem_remaining h
  rcases derived_of_statementOf read with
    ⟨_, _, _, _, _, label⟩ | ⟨mnemonic, given, found, same, named, arguments, _, made⟩
  · cases label
  · exact ⟨before, mnemonic, given, found, rest, by simp [same], named, arguments, made⟩

/-- A statement that is an instruction so many bytes further on is the instruction without them. -/
theorem eq_of_shift {statement : Statement} {name : String} {texts : List String} {span : Span}
    (h : statement.shift span.start = .instruction name texts span) :
    statement = .instruction name texts ⟨0, span.stop - span.start⟩ := by
  cases statement with
  | label => cases h
  | instruction other others near =>
    obtain ⟨rfl, rfl, same⟩ := Statement.instruction.inj h
    have start : near.start + span.start = span.start := congrArg Span.start same
    have stop : near.stop + span.start = span.stop := congrArg Span.stop same
    have zero : near.start = 0 := by omega
    rw [← stop, Nat.add_sub_cancel, ← zero]

/-- The piece of a text that an instruction covers is read as this one instruction, at the start. -/
theorem exists_alone {name : String} {texts : List String} {span : Span}
    (read : Token.read source = .ok tokens)
    (h : .ok (.instruction name texts span) ∈ (ofTokens tokens).remaining) :
    ∃ text near, span.Covers source text ∧ Token.read text = .ok near ∧
      (ofTokens near).remaining = [.ok (.instruction name texts ⟨0, span.stop - span.start⟩)] := by
  obtain ⟨before, mnemonic, given, found, after, rfl, named, arguments, made⟩ :=
    instruction_of_mem h
  obtain ⟨last, ends⟩ : ∃ last, (mnemonic :: given).getLast? = .some last :=
    ⟨_, List.getLast?_eq_some_getLast (List.cons_ne_nil _ _)⟩
  obtain ⟨text, near, slice⟩ := Token.exists_slice read rfl ends
  have whole : span = ⟨mnemonic.span.start, last.span.stop⟩ := by
    rw [← instruction_span arguments ends slice.inside, ← made]
    rfl
  rw [← whole] at slice
  refine ⟨text, near, slice.covers, slice.read, ?_⟩
  have derives := Derives.instruction named arguments EndsLine.nil .nil
  rw [List.append_nil, ← made, slice.shifted] at derives
  have further : (ofTokens near).remaining.map (moved span.start (Statement.shift span.start)) =
      [.ok (.instruction name texts span)] := by
    rw [← remaining_shift]
    exact derives.remaining _
  obtain ⟨item, alone, same⟩ := List.map_eq_singleton_iff.mp further
  rw [alone]
  cases item with
  | error d => cases same
  | ok statement => rw [eq_of_shift (Except.ok.inj same)]

/-! ### Lines between -/

theorem Derives.le_start {statements : List Statement} (h : Derives tokens statements)
    (low : ∀ token ∈ tokens, lower ≤ token.span.start) :
    ∀ statement ∈ statements, lower ≤ statement.span.start := by
  induction h with
  | nil => exact nofun
  | newline _ _ ih => exact ih (List.forall_mem_cons.mp low).2
  | label _ _ _ ih =>
    obtain ⟨name, low⟩ := List.forall_mem_cons.mp low
    obtain ⟨colon, low⟩ := List.forall_mem_cons.mp low
    exact List.forall_mem_cons.mpr ⟨Nat.le_min.mpr ⟨name, colon⟩, ih low⟩
  | @instruction mnemonic given found tokens _ _ arguments _ _ ih =>
    rw [← List.cons_append, List.forall_mem_append] at low
    refine List.forall_mem_cons.mpr ⟨le_instruction_start_iff.mpr fun token member => ?_, ih low.2⟩
    exact low.1 token (List.cons_subset_cons mnemonic arguments.subset member)

theorem Derives.of_newline {newline : Token} {statements : List Statement}
    (h : Derives (newline :: tokens) statements) (ends : newline.kind = .newline) :
    Derives tokens statements := by
  cases h with
  | newline _ rest => exact rest
  | label named => cases ends.symm.trans named
  | instruction named => cases ends.symm.trans named

/-- One of the tokens is a newline behind the first statement and before the second. -/
def Apart (tokens : List Token) (a b : Statement) : Prop :=
  ∃ newline ∈ tokens, newline.kind = .newline ∧
    a.span.stop ≤ newline.span.start ∧ newline.span.stop ≤ b.span.start

theorem Apart.mono {more : List Token} {a b : Statement} (h : Apart tokens a b)
    (subset : tokens ⊆ more) : Apart more a b := by
  obtain ⟨newline, member, between⟩ := h
  exact ⟨newline, subset member, between⟩

/-- The line that an instruction is on ends before whatever comes later. -/
theorem Derives.apart {statements : List Statement} (h : Derives tokens statements)
    (ordered : tokens.Pairwise fun a b => a.span.stop ≤ b.span.start) :
    statements.Pairwise fun a b =>
      (∃ name texts span, a = .instruction name texts span) → Apart tokens a b := by
  induction h with
  | nil => exact .nil
  | newline _ _ ih =>
    refine (ih ordered.of_cons).imp fun later a => ?_
    exact (later a).mono (List.subset_cons_self ..)
  | label _ _ _ ih =>
    refine .cons (fun _ _ ⟨_, _, _, named⟩ => nomatch named) ?_
    refine (ih ordered.of_cons.of_cons).imp fun later a => (later a).mono ?_
    exact List.Subset.trans (List.subset_cons_self ..) (List.subset_cons_self ..)
  | @instruction mnemonic given found tokens statements _ arguments ends rest ih =>
    rw [← List.cons_append] at ordered ⊢
    obtain ⟨_, behind, across⟩ := List.pairwise_append.mp ordered
    refine .cons (fun other member _ => ?_) ?_
    · -- Something comes later, so the line does not end with the tokens.
      cases tokens with
      | nil =>
        cases rest
        cases member
      | cons newline more =>
        have newline_kind : newline.kind = .newline := ends newline rfl
        refine ⟨newline, by simp, newline_kind, instruction_stop_le_iff.mpr ?_, ?_⟩
        · intro token member
          have member := List.cons_subset_cons mnemonic arguments.subset member
          exact across token member newline List.mem_cons_self
        · exact (rest.of_newline newline_kind).le_start (List.pairwise_cons.mp behind).1 other member
    · refine (ih behind).imp fun later a => (later a).mono ?_
      exact List.subset_append_right ..

end QuadAsm.Cursor
