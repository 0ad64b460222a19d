import QuadAsm.Register.Bank

/-! What stands after a mnemonic.

A datum is what an instruction can read: a register or a literal. An operand is a
datum or the name of a label; where which of them is legal depends on the
instruction. -/
namespace QuadAsm

inductive Datum where
  | register (r : Register)
  | literal (value : Int64)
  deriving DecidableEq, Repr

namespace Datum

/-- What the datum is worth to a machine with these registers. -/
def value (bank : Bank) : Datum → Int64
  | register r => bank.get r
  | literal value => value

def text : Datum → String
  | register r => r.name
  | literal value => toString value

end Datum

inductive Operand where
  | datum (datum : Datum)
  | label (name : String)
  deriving DecidableEq, Repr

namespace Operand

def register (r : Register) : Operand := datum (.register r)

def literal (value : Int64) : Operand := datum (.literal value)

def text : Operand → String
  | datum d => d.text
  | label name => name

end Operand

end QuadAsm
