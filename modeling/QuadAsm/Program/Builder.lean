import QuadAsm.Event
import QuadAsm.Program
import QuadAsm.Program.Entry

/-! Programs in the making.

A label points at the instruction recorded next after its declaration, and a second
declaration moves it. An instruction is appended. A call that is refused leaves the
builder as it was. Only label declarations reach the log. -/
namespace QuadAsm

structure Builder where
  program : Program := {}
  log : Array Event := #[]

namespace Builder

/-- The event of declaring a label at an index. -/
def labelEvent (program : Program) (name : String) (index : Nat) : Event :=
  match program.label? name with
  | some before => .labelMoved name before index
  | none => .labelDeclared name index

/-- The builder with one more entry. -/
def record (b : Builder) : Entry → Builder
  | .label name =>
    let index := b.program.size
    let event := labelEvent b.program name index
    { program := { b.program with labels := b.program.labels.insert name index }
      log := b.log.push event }
  | .instruction i =>
    { b with program := { b.program with instructions := b.program.instructions.push i } }

/-! ### Calls as data -/

/-- What can be asked of a builder. -/
inductive Call where
  | label (name : String)
  | emit (instruction : Instruction)
  | operands (opcode : Opcode) (operands : List Operand)
  | texts (mnemonic : String) (operands : List String)
  deriving DecidableEq, Repr

namespace Call

def mov (destination : Register) (source : Operand) : Call :=
  operands .mov [.register destination, source]

def inc (destination : Register) (source : Operand) : Call :=
  operands .inc [.register destination, source]

def dec (destination : Register) (source : Operand) : Call :=
  operands .dec [.register destination, source]

def cmp (left right : Operand) : Call := operands .cmp [left, right]

def jump (condition : Condition) (label : String) : Call :=
  operands (.jump condition) [.label label]

/-- The entry a call records, or why it is refused. -/
def entry : Call → Except Diagnostic Entry
  | .label name => .ok (.label name)
  | .emit i => .ok (.instruction i)
  | .operands opcode given => Entry.ofOperands opcode given
  | .texts mnemonic given => Entry.ofTexts mnemonic given .empty

end Call

/-- The builder after a call, or why the call is refused. -/
def call (b : Builder) (c : Call) : Except Diagnostic Builder := c.entry.map b.record

/-- The builder after a call that may be refused. -/
def attempt (b : Builder) (c : Call) : Builder :=
  match c.entry with
  | .ok entry => b.record entry
  | .error _ => b

/-- The builder after calls of which any may be refused. -/
def attemptAll (b : Builder) (calls : List Call) : Builder := calls.foldl attempt b

@[simp] theorem size_record_label (b : Builder) (name : String) :
    (b.record (.label name)).program.size = b.program.size := rfl

@[simp] theorem size_record_instruction (b : Builder) (i : Instruction) :
    (b.record (.instruction i)).program.size = b.program.size + 1 :=
  Array.size_push i

theorem label?_record_label (b : Builder) (name other : String) :
    (b.record (.label name)).program.label? other =
      if name = other then some b.program.size else b.program.label? other := by
  simp [record, Program.label?, Std.ExtTreeMap.getElem?_insert]

@[simp] theorem label?_record_instruction (b : Builder) (i : Instruction) (name : String) :
    (b.record (.instruction i)).program.label? name = b.program.label? name := rfl

end Builder

end QuadAsm
