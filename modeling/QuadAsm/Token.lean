import QuadAsm.Numeral
import QuadAsm.Span

/-! Tokens: the words a program text is made of, each with its kind, its text and
its place. -/
namespace QuadAsm

/-- The kinds of token. The first two separate the others and are dropped from a
program's tokens; a newline is kept, because it ends an instruction. -/
inductive Token.Kind where
  | whitespace
  | comment
  | newline
  | literal (radix : Radix)
  | identifier
  | colon
  | comma
  deriving DecidableEq, Repr

namespace Token.Kind

def all : List Kind :=
  [whitespace, comment, newline, literal .decimal, literal .binary, literal .hexadecimal, identifier,
    colon, comma]

/-- The kind as messages name it. -/
def name : Kind → String
  | whitespace => "Whitespace"
  | comment => "Comment"
  | newline => "Newline"
  | literal .decimal => "IntegerLiteral"
  | literal .binary => "BinaryIntegerLiteral"
  | literal .hexadecimal => "HexIntegerLiteral"
  | identifier => "Identifier"
  | colon => "Colon"
  | comma => "Comma"

/-- Whether tokens of the kind only separate others. -/
def isTrivia : Kind → Bool
  | whitespace | comment => true
  | _ => false

/-- Whether a token of the kind can stand as an operand. -/
def isOperand : Kind → Bool
  | identifier | literal _ => true
  | _ => false

theorem mem_all (kind : Kind) : kind ∈ all := by
  cases kind with
  | literal radix => cases radix <;> decide
  | _ => decide

end Token.Kind

structure Token where
  kind : Token.Kind
  text : String
  span : Span
  deriving DecidableEq, Repr

/-- Whether two tokens are of one kind at one place. In one program text the place
settles the text, so this is all that equality of tokens needs to ask. -/
def Token.sameAs (a b : Token) : Bool := a.kind == b.kind && a.span == b.span

end QuadAsm
