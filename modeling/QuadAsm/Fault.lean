import QuadAsm.Opcode
import QuadAsm.Operand
import QuadAsm.Token

/-! What can be wrong with a program, cause by cause.

A cause settles its kind and its wording; where in a text it lies is added by a
`Diagnostic`. -/
namespace QuadAsm

inductive Fault.Kind where
  | lexer
  | parser
  | unknownRegister
  | malformedOperand
  | malformedInstruction
  | unresolvedLabel
  | stepLimit
  deriving DecidableEq, Repr

/-- The kind as a message's first words. -/
def Fault.Kind.text : Fault.Kind → String
  | lexer => "lexer error"
  | parser => "parser error"
  | unknownRegister => "unknown register"
  | malformedOperand => "malformed operand"
  | malformedInstruction => "malformed instruction"
  | unresolvedLabel => "unresolved label"
  | stepLimit => "step limit"

inductive Fault where
  /-- No token starts with the character. -/
  | unknownCharacter (character : Char)
  | unexpectedToken (expected found : Token.Kind)
  | operandExpected (found : Token.Kind)
  | outOfTokens
  /-- A name stands where only a register or a literal may. -/
  | unknownRegister (name : String)
  | malformedOperand (text : String)
  | literalOutOfRange (text : String)
  /-- A literal stands where the result is to go. -/
  | literalDestination (opcode : Opcode) (value : Int64)
  /-- A register or a literal stands where a jump's label is to be. -/
  | datumTarget (opcode : Opcode) (datum : Datum)
  | unknownInstruction (mnemonic : String)
  | operandCount (opcode : Opcode) (found : Nat)
  | unresolvedLabel (name : String)
  | stepLimit (limit : Nat)
  /-- A fault found by someone else, in their own words. -/
  | reported (kind : Fault.Kind) (message : String)
  deriving DecidableEq, Repr

namespace Fault

def kind : Fault → Kind
  | unknownCharacter _ => .lexer
  | unexpectedToken _ _ => .parser
  | operandExpected _ => .parser
  | outOfTokens => .parser
  | unknownRegister _ => .unknownRegister
  | malformedOperand _ => .malformedOperand
  | literalOutOfRange _ => .malformedOperand
  | literalDestination _ _ => .malformedOperand
  | datumTarget _ _ => .malformedOperand
  | unknownInstruction _ => .malformedInstruction
  | operandCount _ _ => .malformedInstruction
  | unresolvedLabel _ => .unresolvedLabel
  | stepLimit _ => .stepLimit
  | reported kind _ => kind

def message : Fault → String
  | unknownCharacter character => s!"Unknown character '{character}'"
  | unexpectedToken expected found => s!"Expected token {expected.name}, but got {found.name}"
  | operandExpected found => s!"Expected an operand, but got {found.name}"
  | outOfTokens => "Token stream out of bounds"
  | unknownRegister name => s!"Unknown register '{name}'"
  | malformedOperand text => s!"Malformed operand '{text}'"
  | literalOutOfRange text => s!"Integer literal '{text}' out of range"
  | literalDestination opcode value =>
    s!"Expected a register as destination of {opcode.name.toUpper}, got '{value}'"
  | datumTarget opcode datum =>
    s!"Expected a label as target of {opcode.name.toUpper}, got '{datum.text}'"
  | unknownInstruction mnemonic => s!"Unknown instruction '{mnemonic}'"
  | operandCount opcode found =>
    s!"{opcode.name.toUpper} expects {opcode.arityText} operand(s), got {found}"
  | unresolvedLabel name => s!"Unresolved label '{name}'"
  | stepLimit limit => s!"Step limit of {limit} exceeded"
  | reported _ message => message

end Fault

end QuadAsm
