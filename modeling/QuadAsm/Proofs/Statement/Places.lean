import QuadAsm.Proofs.Statement.Lines
import QuadAsm.Proofs.Statement.Stops
import QuadAsm.Proofs.Token.Pieces

/-! Where statements stand, and what a refusal is about.

A statement is made of tokens of one line, so its span covers a piece of that line
(`onLine_of_mem`). A cursor that is refused has one token to blame (`blames_of_mem`): the one that
does not fit, or the last of all where there is none left. It is a newline just when an operand
was expected there, since elsewhere a newline ends what is read. -/
namespace QuadAsm.Cursor

variable {tokens rest given found : List Token} {last : Span} {d : Diagnostic} {source : String}
  {lower upper : Nat}

/-! ### Statements -/

theorem Arguments.subset (h : Arguments given found) : found ⊆ given := by
  cases h with
  | none => exact List.Subset.refl _
  | some listed =>
    induction listed with
    | one _ => exact List.Subset.refl _
    | more _ _ _ ih =>
      apply List.cons_subset_cons
      exact List.Subset.trans ih (List.subset_cons_self ..)

theorem instruction_lies {mnemonic : Token} (first : mnemonic.span.Lies source lower upper)
    (others : ∀ operand ∈ found, operand.span.Lies source lower upper) :
    (instruction mnemonic found).span.Lies source lower upper := by
  show (found.foldl (fun span operand => span.cover operand.span) mnemonic.span).Lies ..
  generalize mnemonic.span = span at first
  induction found generalizing span with
  | nil => exact first
  | cons operand found ih =>
    obtain ⟨here, others⟩ := List.forall_mem_cons.mp others
    exact ih others _ (first.cover here)

/-- A statement is made of tokens of one line. -/
theorem lies_of_mem {statement : Statement} (h : .ok statement ∈ (ofTokens tokens).remaining) :
    ∃ before line after, tokens = before ++ line ++ after ∧
      (∀ token ∈ line, token.kind ≠ .newline) ∧
      ∀ source lower upper, (∀ token ∈ line, token.span.Lies source lower upper) →
        statement.span.Lies source lower upper := by
  obtain ⟨first, more, rest, starts, ⟨before, rfl⟩, read⟩ := mem_remaining h
  rcases derived_of_statementOf read with
    ⟨name, colon, same, _, declared, rfl⟩ | ⟨mnemonic, given, found, same, _, arguments, _, rfl⟩
  · cases same
    have solid : colon.kind ≠ .newline := by simp [declared]
    refine ⟨before, [first, colon], rest, by simp, ?_, fun source lower upper lie => ?_⟩
    · exact List.forall_mem_cons.mpr ⟨starts, by simpa using solid⟩
    · exact (lie first (by simp)).cover (lie colon (by simp))
  · cases same
    refine ⟨before, first :: given, rest, by simp, ?_, fun source lower upper lie => ?_⟩
    · exact List.forall_mem_cons.mpr ⟨starts, arguments.newline_free⟩
    · obtain ⟨here, others⟩ := List.forall_mem_cons.mp lie
      exact instruction_lies here fun operand member => others operand (arguments.subset member)

/-- The statements of a text stand on a line each. -/
theorem onLine_of_mem {statement : Statement} (read : Token.read source = .ok tokens)
    (h : .ok statement ∈ (ofTokens tokens).remaining) : statement.span.OnLine source := by
  obtain ⟨before, line, after, rfl, solid, made⟩ := lies_of_mem h
  obtain ⟨lower, upper, lie, within⟩ := Token.line_of_read read solid
  exact within _ (made source lower upper lie)

/-! ### Refusals -/

/-- The refusal is about the token, which is a newline just when an operand was expected there. -/
structure Blames (d : Diagnostic) (token : Token) : Prop where
  kind : d.kind = .parser
  span : d.span? = some token.span
  newline : d.fault = .operandExpected .newline ↔ token.kind = .newline

/-- A refusal for anything else is about a token that is no newline. -/
theorem Blames.of_solid {fault : Fault} {token : Token} (kind : fault.kind = .parser)
    (other : fault ≠ .operandExpected .newline) (solid : token.kind ≠ .newline) :
    Blames (fault.at token.span) token :=
  ⟨kind, rfl, fun same => absurd same other, fun same => absurd same solid⟩

theorem Names.blames {token : Token} (h : Names token d) : Blames d token := by
  cases h with
  | mnemonic solid => exact .of_solid rfl (by simp) solid
  | separator solid => exact .of_solid rfl (by simp) solid
  | operand => exact ⟨rfl, rfl, by simp [Fault.at]⟩

/-- What a cursor is refused for, one of its tokens is to blame for. -/
theorem blames_of_mem (h : .error d ∈ (ofTokens tokens).remaining) :
    ∃ token ∈ tokens, Blames d token := by
  cases remaining_stops h with
  | @behind before after token d names _ _ => exact ⟨token, by simp, names.blames⟩
  | early ends _ _ =>
    obtain ⟨before, comma, rfl⟩ :=
      (List.eq_nil_or_concat' tokens).resolve_left (ne_nil_of_mem h)
    have solid : comma.kind ≠ .newline := by simp [ends comma (by simp)]
    rw [List.getLast?_concat]
    exact ⟨comma, by simp, .of_solid rfl (by simp) solid⟩

end QuadAsm.Cursor
