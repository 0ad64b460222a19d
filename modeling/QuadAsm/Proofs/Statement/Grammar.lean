import QuadAsm.Statement.Cursor

/-! The grammar of statements.

`Derives` says which statements a token list is made of, without a word about how they are
found: labels and instructions with newlines around them, where an instruction ends at a
newline or with the list. A cursor finds the statements of every derivation
(`Derives.remaining`), because its two tokens of look-ahead tell the rules apart. -/
namespace QuadAsm

namespace Cursor

/-- Operand tokens with a comma between each and the next, and these operands alone. -/
inductive Listed : List Token → List Token → Prop where
  | one {operand : Token} (fits : operand.kind.isOperand = true) : Listed [operand] [operand]
  | more {operand comma : Token} {tokens operands : List Token}
      (fits : operand.kind.isOperand = true) (separates : comma.kind = .comma)
      (others : Listed tokens operands) :
      Listed (operand :: comma :: tokens) (operand :: operands)

/-- What stands behind a mnemonic: nothing, or operands. -/
inductive Arguments : List Token → List Token → Prop where
  | none : Arguments [] []
  | some {tokens operands : List Token} (listed : Listed tokens operands) :
      Arguments tokens operands

/-- A line ends here. -/
def EndsLine (tokens : List Token) : Prop := ∀ token ∈ tokens.head?, token.kind = .newline

/-- The statements a token list is made of. -/
inductive Derives : List Token → List Statement → Prop where
  | nil : Derives [] []
  | newline {token : Token} {tokens : List Token} {statements : List Statement}
      (newline : token.kind = .newline) (rest : Derives tokens statements) :
      Derives (token :: tokens) statements
  | label {name colon : Token} {tokens : List Token} {statements : List Statement}
      (named : name.kind = .identifier) (declared : colon.kind = .colon)
      (rest : Derives tokens statements) :
      Derives (name :: colon :: tokens)
        (.label name.text (name.span.cover colon.span) :: statements)
  | instruction {mnemonic : Token} {given operands tokens : List Token}
      {statements : List Statement} (named : mnemonic.kind = .identifier)
      (arguments : Arguments given operands) (ends : EndsLine tokens)
      (rest : Derives tokens statements) :
      Derives (mnemonic :: (given ++ tokens)) (instruction mnemonic operands :: statements)

/-! ### Reading one statement -/

theorem operands_of_listed {given found tokens : List Token} (listed : Listed given found)
    (ends : EndsLine tokens) (last : Span) :
    operands last (given ++ tokens) = (.ok found, tokens) := by
  induction listed with
  | @one operand fits =>
    cases tokens with
    | nil => simp [operands, fits]
    | cons newline tokens => simp [operands, fits, ends newline rfl]
  | more fits separates _ ih =>
    simp only [List.cons_append, operands, fits, separates, ih, if_true]
    rfl

/-- What can stand as an operand is no colon and no newline. -/
theorem ne_of_isOperand {token : Token} (fits : token.kind.isOperand = true) :
    token.kind ≠ .colon ∧ token.kind ≠ .newline := by
  constructor
  all_goals
    intro same
    rw [same] at fits
    cases fits

/-- The first of some operands can stand as one. -/
theorem Listed.eq_cons {given found : List Token} (listed : Listed given found) :
    ∃ first others, given = first :: others ∧ first.kind.isOperand = true := by
  cases listed with
  | one fits => exact ⟨_, _, rfl, fits⟩
  | more fits _ _ => exact ⟨_, _, rfl, fits⟩

theorem statementOf_of_arguments {mnemonic : Token} {given found tokens : List Token}
    (named : mnemonic.kind = .identifier) (arguments : Arguments given found)
    (ends : EndsLine tokens) (last : Span) :
    statementOf last (mnemonic :: (given ++ tokens)) =
      (.ok (instruction mnemonic found), tokens) := by
  cases arguments with
  | none =>
    cases tokens with
    | nil => simp [statementOf, named]
    | cons newline tokens => simp [statementOf, named, ends newline rfl]
  | some listed =>
    obtain ⟨first, others, rfl, fits⟩ := listed.eq_cons
    have read := operands_of_listed listed ends last
    obtain ⟨colon, newline⟩ := ne_of_isOperand fits
    rw [List.cons_append] at read ⊢
    simp only [statementOf, named, colon, newline, read, if_true, if_false]
    rfl

/-! ### Reading all of them -/

theorem remaining_of_none {c : Cursor} (h : c.next?.1 = none) : c.remaining = [] := by
  rw [remaining]
  split
  · rfl
  · rename_i more
    rw [h] at more
    cases more

theorem remaining_of_some {c : Cursor} {item : Except Diagnostic Statement}
    (h : c.next?.1 = some item) : c.remaining = item :: c.next?.2.remaining := by
  rw [remaining]
  split
  · rename_i none
    rw [h] at none
    cases none
  · rename_i other more
    rw [h] at more
    cases more
    rfl

theorem remaining_newline {token : Token} (newline : token.kind = .newline) (tokens : List Token)
    (last : Span) : remaining ⟨token :: tokens, last⟩ = remaining ⟨tokens, last⟩ := by
  have skipped : skipNewlines ⟨token :: tokens, last⟩ = skipNewlines ⟨tokens, last⟩ := by
    simp [skipNewlines, newline]
  have same : next? ⟨token :: tokens, last⟩ = next? ⟨tokens, last⟩ := by
    unfold next?
    rw [skipped]
  rw [remaining, same]
  exact (remaining.eq_1 _).symm

/-- A statement that is read comes before those of the tokens behind it. -/
theorem remaining_statement {token : Token} {tokens rest : List Token} {last : Span}
    {statement : Statement} (starts : token.kind ≠ .newline)
    (read : statementOf last (token :: tokens) = (.ok statement, rest)) :
    remaining ⟨token :: tokens, last⟩ = .ok statement :: remaining ⟨rest, last⟩ := by
  have next : next? ⟨token :: tokens, last⟩ = (some (.ok statement), ⟨rest, last⟩) := by
    simp [next?, skipNewlines, starts, atEnd, Cursor.statement, read]
  rw [remaining_of_some (congrArg Prod.fst next), next]

/-- A cursor finds the statements that its tokens are made of. -/
theorem Derives.remaining {tokens : List Token} {statements : List Statement}
    (h : Derives tokens statements) (last : Span) :
    Cursor.remaining ⟨tokens, last⟩ = statements.map .ok := by
  induction h with
  | nil => exact remaining_of_none rfl
  | newline newline _ ih => rw [remaining_newline newline, ih]
  | @label name colon tokens statements named declared _ ih =>
    have read : statementOf last (name :: colon :: tokens) =
        (.ok (.label name.text (name.span.cover colon.span)), tokens) := by
      simp [statementOf, named, declared]
    rw [remaining_statement (by simp [named]) read, ih, List.map_cons]
  | instruction named arguments ends _ ih =>
    have read := statementOf_of_arguments named arguments ends last
    rw [remaining_statement (by simp [named]) read, ih, List.map_cons]

end Cursor

end QuadAsm
