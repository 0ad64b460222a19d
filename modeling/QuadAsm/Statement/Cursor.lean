import QuadAsm.Diagnostic
import QuadAsm.Statement

/-! From tokens to statements.

A label is a name and a colon; whatever follows may share its line. An instruction
is a name, then operands with commas between them, up to a newline or the end of the
tokens. A cursor stands somewhere in a token list: `statement` reads what starts
there and moves it, also when it fails, to just behind the last token it looked at;
`next?` first skips newlines, and goes to the end after a failure, because nothing
sensible follows a malformed line. -/
namespace QuadAsm

/-- A place in a token list: the tokens still to be read, and where the whole list
ends. -/
structure Cursor where
  rest : List Token
  /-- The place of the list's last token, which stands for the place of what is missing. -/
  last : Span
  deriving DecidableEq, Repr

namespace Cursor

/-- The cursor at the start of a list. -/
def ofTokens (tokens : List Token) : Cursor :=
  ⟨tokens, (tokens.getLast?.map Token.span).getD .empty⟩

def atEnd (c : Cursor) : Bool := c.rest.isEmpty

/-- At least one operand, and a comma before every further one, up to the end of the
line. The newline itself is left unread. -/
def operands (last : Span) : List Token → Except Diagnostic (List Token) × List Token
  | [] => (.error (Fault.outOfTokens.at last), [])
  | token :: rest =>
    if token.kind.isOperand then
      match rest with
      | [] => (.ok [token], [])
      | separator :: rest' =>
        if separator.kind = .newline then (.ok [token], rest)
        else if separator.kind = .comma then
          let more := operands last rest'
          (more.1.map (token :: ·), more.2)
        else (.error (Fault.unexpectedToken .comma separator.kind |>.at separator.span), rest')
    else (.error (Fault.operandExpected token.kind |>.at token.span), rest)

/-- The instruction with this mnemonic and these operand tokens. -/
def instruction (mnemonic : Token) (operands : List Token) : Statement :=
  .instruction mnemonic.text (operands.map Token.text)
    (operands.foldl (fun span operand => span.cover operand.span) mnemonic.span)

/-- The statement at the start of these tokens, and the tokens behind it. -/
def statementOf (last : Span) : List Token → Except Diagnostic Statement × List Token
  | [] => (.error (Fault.outOfTokens.at last), [])
  | token :: rest =>
    if token.kind = .identifier then
      match rest with
      | [] => (.ok (instruction token []), [])
      | second :: rest' =>
        if second.kind = .colon then
          (.ok (.label token.text (token.span.cover second.span)), rest')
        else if second.kind = .newline then (.ok (instruction token []), rest)
        else
          let more := operands last rest
          (more.1.map (instruction token), more.2)
    else (.error (Fault.unexpectedToken .identifier token.kind |>.at token.span), rest)

/-- The statement that starts here; newlines are not skipped. -/
def statement (c : Cursor) : Except Diagnostic Statement × Cursor :=
  let (result, rest) := statementOf c.last c.rest
  (result, { c with rest })

/-- The cursor behind the newlines that stand here. -/
def skipNewlines (c : Cursor) : Cursor := { c with rest := c.rest.dropWhile (·.kind == .newline) }

/-- The next statement, if there is another. After a failure nothing is left. -/
def next? (c : Cursor) : Option (Except Diagnostic Statement) × Cursor :=
  let c := c.skipNewlines
  if c.atEnd then (none, c)
  else
    match c.statement with
    | (.ok statement, c) => (some (.ok statement), c)
    | (.error d, c) => (some (.error d), { c with rest := [] })

/-! ### Progress -/

theorem operands_length_le (last : Span) (tokens : List Token) :
    (operands last tokens).2.length ≤ tokens.length := by
  fun_induction operands last tokens <;> grind

theorem statementOf_length_lt (last : Span) {tokens : List Token} (h : tokens ≠ []) :
    (statementOf last tokens).2.length < tokens.length := by
  fun_cases statementOf last tokens <;> grind [operands_length_le]

theorem statement_length_lt {c : Cursor} (h : c.rest ≠ []) :
    c.statement.2.rest.length < c.rest.length :=
  statementOf_length_lt c.last h

/-- A cursor that yields something has moved. -/
theorem next?_length_lt {c : Cursor} {item : Except Diagnostic Statement}
    (h : c.next?.1 = some item) : c.next?.2.rest.length < c.rest.length := by
  have skipped : c.skipNewlines.rest.length ≤ c.rest.length :=
    (List.dropWhile_sublist _).length_le
  unfold next? at h ⊢
  by_cases ended : c.skipNewlines.atEnd = true
  · simp [ended] at h
  · have more : c.skipNewlines.rest ≠ [] := by simpa [atEnd] using ended
    have moved := statement_length_lt more
    simp only [ended, Bool.false_eq_true, if_false]
    split
    · rename_i read
      rw [read] at moved
      exact Nat.lt_of_lt_of_le moved skipped
    · exact Nat.lt_of_lt_of_le (List.length_pos_iff.mpr more) skipped

/-- All that is still to be read, statement by statement; a failure comes last. -/
def remaining (c : Cursor) : List (Except Diagnostic Statement) :=
  match _h : c.next?.1 with
  | none => []
  | some item => item :: c.next?.2.remaining
termination_by c.rest.length
decreasing_by exact next?_length_lt _h

end Cursor

end QuadAsm
