import QuadAsm.Instruction
import QuadAsm.Text.Identifier

/-! From the words of a statement to an instruction.

An operand that is a register's name is a register, a literal is its value, and any
other name is a label. A literal that fits no register and a text that is none of
the three are refused. Of several faults the first is found in this order: the
mnemonic, the operands one by one from the left, then what `Operation.ofOperands`
checks. -/
namespace QuadAsm

def Register.read (text : String) : Except Fault Register :=
  match ofName? text with
  | some r => .ok r
  | none => .error (.unknownRegister text)

def Opcode.read (text : String) : Except Fault Opcode :=
  match ofName? text with
  | some opcode => .ok opcode
  | none => .error (.unknownInstruction text)

/-- The value of a literal; `none` for a text that is no literal at all. -/
def Numeral.read (text : String) : Except Fault (Option Int64) :=
  match value? text.toList with
  | none => .ok none
  | some v =>
    match word? v with
    | some word => .ok (some word)
    | none => .error (.literalOutOfRange text)

def Operand.read (text : String) : Except Fault Operand :=
  match Register.ofName? text with
  | some r => .ok (.register r)
  | none =>
    match Numeral.read text with
    | .error fault => .error fault
    | .ok (some value) => .ok (.literal value)
    | .ok none =>
      if Text.isName text.toList then .ok (.label text) else .error (.malformedOperand text)

/-- The operation a mnemonic and the texts of its operands stand for. -/
def Operation.read (mnemonic : String) (texts : List String) : Except Fault Operation := do
  let opcode ← Opcode.read mnemonic
  let operands ← texts.mapM Operand.read
  ofOperands opcode operands

end QuadAsm
