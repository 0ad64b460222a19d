import QuadAsm.Fault

/-! Instructions in the only shapes the machine can execute.

An operation says which operands it has and of which sort, so that nothing is left
to check when it runs. `ofOperands` is where a mnemonic's operands, as written or as
recorded by a caller, are checked: their count first, then each from left to right. -/
namespace QuadAsm

/-- What an instruction does. -/
inductive Operation where
  | mov (destination : Register) (source : Datum)
  | inc (destination : Register) (source : Datum)
  | dec (destination : Register) (source : Datum)
  | cmp (left right : Datum)
  | jump (condition : Condition) (label : String)
  deriving DecidableEq, Repr

namespace Operation

def opcode : Operation → Opcode
  | mov _ _ => .mov
  | inc _ _ => .inc
  | dec _ _ => .dec
  | cmp _ _ => .cmp
  | jump condition _ => .jump condition

def operands : Operation → List Operand
  | mov destination source => [.register destination, .datum source]
  | inc destination source => [.register destination, .datum source]
  | dec destination source => [.register destination, .datum source]
  | cmp left right => [.datum left, .datum right]
  | jump _ label => [.label label]

/-- The label a jump goes to. -/
def target? : Operation → Option String
  | jump _ label => some label
  | _ => none

def text (operation : Operation) : String :=
  operation.opcode.name ++ " " ++ ", ".intercalate (operation.operands.map Operand.text)

/-! ### Checking operands -/

/-- The operand as the register that receives a result. -/
def asDestination (opcode : Opcode) : Operand → Except Fault Register
  | .datum (.register r) => .ok r
  | .datum (.literal value) => .error (.literalDestination opcode value)
  | .label name => .error (.unknownRegister name)

/-- The operand as something to read. -/
def asSource : Operand → Except Fault Datum
  | .datum d => .ok d
  | .label name => .error (.unknownRegister name)

/-- The operand as the label of a jump. -/
def asTarget (opcode : Opcode) : Operand → Except Fault String
  | .datum d => .error (.datumTarget opcode d)
  | .label name => .ok name

/-- The operation of an opcode with these operands. `inc` and `dec` move by one when
nothing is said. -/
def ofOperands (opcode : Opcode) (operands : List Operand) : Except Fault Operation :=
  match opcode, operands with
  | .mov, [a, b] => return mov (← asDestination opcode a) (← asSource b)
  | .inc, [a] => return inc (← asDestination opcode a) (.literal 1)
  | .inc, [a, b] => return inc (← asDestination opcode a) (← asSource b)
  | .dec, [a] => return dec (← asDestination opcode a) (.literal 1)
  | .dec, [a, b] => return dec (← asDestination opcode a) (← asSource b)
  | .cmp, [a, b] => return cmp (← asSource a) (← asSource b)
  | .jump condition, [a] => return jump condition (← asTarget opcode a)
  | _, _ => throw (.operandCount opcode operands.length)

/-- Every operation is what its own opcode and operands say. -/
theorem ofOperands_operands (operation : Operation) :
    ofOperands operation.opcode operation.operands = .ok operation := by
  cases operation <;> rfl

end Operation

/-- An operation and the place it was written at, empty when it was never written. -/
structure Instruction where
  operation : Operation
  span : Span := .empty
  deriving DecidableEq, Repr

namespace Instruction

def opcode (i : Instruction) : Opcode := i.operation.opcode

def operands (i : Instruction) : List Operand := i.operation.operands

def target? (i : Instruction) : Option String := i.operation.target?

def text (i : Instruction) : String := i.operation.text

end Instruction

end QuadAsm
