import Std.Data.ExtTreeMap
import QuadAsm.Instruction

/-! Programs: instructions in order, and a table of labels.

A jump keeps the name of its label, which is looked up when the jump is taken. So a
label can be declared before or after the jumps to it, and a jump to a label that
nobody declares is no fault until it is taken. Two programs are equal when their
instructions are, places included, and their tables say the same. -/
namespace QuadAsm

structure Program where
  instructions : Array Instruction := #[]
  /-- For each declared name the index of the instruction it points at. -/
  labels : Std.ExtTreeMap String Nat := ∅
  deriving DecidableEq

namespace Program

def size (program : Program) : Nat := program.instructions.size

def isEmpty (program : Program) : Bool := program.instructions.isEmpty

def get? (program : Program) (index : Nat) : Option Instruction := program.instructions[index]?

/-- Where a label points. -/
def label? (program : Program) (name : String) : Option Nat := program.labels[name]?

/-- Whether the instruction is a jump to a label nobody declares. -/
def isUnresolved (program : Program) (i : Instruction) : Bool :=
  match i.target? with
  | some name => (program.label? name).isNone
  | none => false

/-- The jumps whose label nobody declares. -/
def unresolved (program : Program) : List Instruction :=
  program.instructions.toList.filter program.isUnresolved

theorem get?_eq_none_iff {program : Program} {index : Nat} :
    program.get? index = none ↔ program.size ≤ index := by
  simp [get?, size]

theorem mem_of_get? {program : Program} {i : Instruction} {index : Nat}
    (h : program.get? index = some i) : i ∈ program.instructions :=
  Array.mem_of_getElem? h

theorem isUnresolved_iff {program : Program} {i : Instruction} :
    program.isUnresolved i = true ↔ ∃ name, i.target? = some name ∧ program.label? name = none := by
  unfold isUnresolved
  split <;> simp_all

end Program

end QuadAsm
