import QuadAsm.Instruction.Reading
import QuadAsm.Statement.Cursor

/-! Entries: the pieces a program is recorded from, one after the other.

Whether an entry can be had is settled by what is asked for alone, never by what has
been recorded before: a label always can, an instruction when its operands are right.
A fault found in a statement lies where the statement does. -/
namespace QuadAsm

inductive Entry where
  /-- The instruction recorded next is where the name points. -/
  | label (name : String)
  | instruction (instruction : Instruction)
  deriving DecidableEq, Repr

namespace Entry

/-- An opcode with these operands, not written anywhere. -/
def ofOperands (opcode : Opcode) (operands : List Operand) : Except Diagnostic Entry :=
  match Operation.ofOperands opcode operands with
  | .ok operation => .ok (instruction ⟨operation, .empty⟩)
  | .error fault => .error fault.unplaced

/-- What a mnemonic and the texts of its operands stand for, written at this place. -/
def ofTexts (mnemonic : String) (texts : List String) (span : Span) : Except Diagnostic Entry :=
  match Operation.read mnemonic texts with
  | .ok operation => .ok (instruction ⟨operation, span⟩)
  | .error fault => .error (fault.unplaced.locate span)

/-- What a statement says. -/
def ofStatement : Statement → Except Diagnostic Entry
  | .label name _ => .ok (label name)
  | .instruction mnemonic operands span => ofTexts mnemonic operands span

end Entry

end QuadAsm
