/-! What an instruction can do, by name.

A comparison leaves its outcome in the flag; a jump states under which of the three
outcomes it is taken. -/
namespace QuadAsm

/-- The outcome of the last comparison: how its left side stood to its right side. -/
abbrev Flag := Ordering

def Flag.name : Flag → String
  | .lt => "Less"
  | .eq => "Equal"
  | .gt => "Greater"

/-- When a jump is taken. -/
inductive Condition where
  | always
  | equal
  | notEqual
  | less
  | lessOrEqual
  | greater
  | greaterOrEqual
  deriving DecidableEq, Repr

namespace Condition

/-- Whether the condition is met after a comparison with this outcome. -/
def holds : Condition → Flag → Bool
  | always, _ => true
  | equal, flag => flag.isEq
  | notEqual, flag => flag.isNe
  | less, flag => flag.isLT
  | lessOrEqual, flag => flag.isLE
  | greater, flag => flag.isGT
  | greaterOrEqual, flag => flag.isGE

end Condition

inductive Opcode where
  | mov
  | inc
  | dec
  | cmp
  | jump (condition : Condition)
  deriving DecidableEq, Repr

namespace Opcode

def all : List Opcode :=
  [mov, inc, dec, cmp, jump .always, jump .equal, jump .notEqual, jump .less, jump .lessOrEqual,
    jump .greater, jump .greaterOrEqual]

def name : Opcode → String
  | mov => "mov"
  | inc => "inc"
  | dec => "dec"
  | cmp => "cmp"
  | jump .always => "jmp"
  | jump .equal => "je"
  | jump .notEqual => "jne"
  | jump .less => "jl"
  | jump .lessOrEqual => "jle"
  | jump .greater => "jg"
  | jump .greaterOrEqual => "jge"

/-- The opcode of a mnemonic in any case. -/
def ofName? (text : String) : Option Opcode := all.find? fun opcode => opcode.name == text.toLower

/-- The condition of a jump. -/
def condition? : Opcode → Option Condition
  | jump condition => some condition
  | _ => none

def isJump (opcode : Opcode) : Bool := opcode.condition?.isSome

/-- Whether the opcode is a jump that is taken after a comparison with this outcome. -/
def taken (opcode : Opcode) (flag : Flag) : Bool := opcode.condition?.any (·.holds flag)

/-- The fewest operands the opcode takes; `inc` and `dec` have a second one to spare. -/
def minOperands : Opcode → Nat
  | mov | cmp => 2
  | inc | dec => 1
  | jump _ => 1

def maxOperands : Opcode → Nat
  | mov | cmp => 2
  | inc | dec => 2
  | jump _ => 1

/-- The operand count as a message words it. -/
def arityText (opcode : Opcode) : String :=
  if opcode.minOperands = opcode.maxOperands then s!"{opcode.minOperands}"
  else s!"{opcode.minOperands} or {opcode.maxOperands}"

theorem mem_all (opcode : Opcode) : opcode ∈ all := by
  cases opcode with
  | jump condition => cases condition <;> decide
  | _ => decide

/-- A text reads as an opcode exactly when it is that opcode's name up to case. -/
theorem ofName?_eq_some_iff {text : String} {opcode : Opcode} :
    ofName? text = some opcode ↔ text.toLower = opcode.name := by
  constructor
  · intro h
    have named : (opcode.name == text.toLower) = true :=
      List.find?_some (p := fun opcode : Opcode => opcode.name == text.toLower) h
    exact (beq_iff_eq.mp named).symm
  · intro h
    rw [ofName?, h]
    cases opcode with
    | jump condition => cases condition <;> decide
    | _ => decide

end Opcode

end QuadAsm
