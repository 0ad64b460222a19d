import QuadAsm.Span

/-! Statements: what a program text says, one after the other, before names and
operands are given a meaning. -/
namespace QuadAsm

inductive Statement where
  /-- The next instruction is where the name points. -/
  | label (name : String) (span : Span)
  /-- A mnemonic and the texts of its operands. -/
  | instruction (mnemonic : String) (operands : List String) (span : Span)
  deriving DecidableEq, Repr

/-- From a statement's first token to its last. -/
def Statement.span : Statement → Span
  | label _ span => span
  | instruction _ _ span => span

end QuadAsm
