import QuadAsm.Diagnostic
import QuadAsm.Event
import QuadAsm.Program

/-! The machine that executes a program.

Its state is four registers, the flag, the pointer to the next instruction and a
count of the steps made. It has halted once the pointer is past the last
instruction. A step executes one instruction or changes nothing: it is refused when
the step limit is reached, which is asked first, and when a taken jump's label is not
declared. Arithmetic wraps around in 64 bits. -/
namespace QuadAsm

structure Machine where
  registers : Bank := {}
  flag : Flag := .eq
  pointer : Nat := 0
  steps : Nat := 0
  deriving DecidableEq, Repr

namespace Machine

/-- A machine before its first step. -/
def start : Machine := {}

/-- The machine with one register changed and the pointer on the next instruction. -/
def write (m : Machine) (r : Register) (value : Int64) : Machine :=
  { m with registers := m.registers.set r value, pointer := m.pointer + 1 }

/-- The machine after an operation, not counted as a step yet. -/
def execute (program : Program) (m : Machine) : Operation → Except Fault Machine
  | .mov destination source => .ok (m.write destination (source.value m.registers))
  | .inc destination source =>
    .ok (m.write destination (m.registers.get destination + source.value m.registers))
  | .dec destination source =>
    .ok (m.write destination (m.registers.get destination - source.value m.registers))
  | .cmp left right =>
    .ok { m with
      flag := compare (left.value m.registers) (right.value m.registers)
      pointer := m.pointer + 1 }
  | .jump condition label =>
    if condition.holds m.flag then
      match program.label? label with
      | some index => .ok { m with pointer := index }
      | none => .error (.unresolvedLabel label)
    else .ok { m with pointer := m.pointer + 1 }

/-- Whether the pointer is past the last instruction. -/
def halted (program : Program) (m : Machine) : Bool := program.size ≤ m.pointer

/-- The limit, once the machine has reached it. -/
def reached? (limit : Option Nat) (m : Machine) : Option Nat := limit.filter (· ≤ m.steps)

/-- The machine after one step; a machine that has halted stays as it is. -/
def step (program : Program) (limit : Option Nat) (m : Machine) : Except Diagnostic Machine :=
  match program.get? m.pointer with
  | none => .ok m
  | some i =>
    match m.reached? limit with
    | some limit => .error (Fault.stepLimit limit |>.at i.span)
    | none =>
      match m.execute program i.operation with
      | .ok after => .ok { after with steps := m.steps + 1 }
      | .error fault => .error (fault.unplaced.locate i.span)

/-- What a step leaves in the log, before it is known whether it succeeds. -/
def event? (program : Program) (limit : Option Nat) (m : Machine) : Option Event :=
  match program.get? m.pointer, m.reached? limit with
  | some i, none => some (.executing m.pointer i m.flag)
  | _, _ => none

theorem halted_iff {program : Program} {m : Machine} :
    m.halted program = true ↔ program.get? m.pointer = none := by
  simp [halted, Program.get?_eq_none_iff]

theorem step_of_halted {program : Program} {m : Machine} (limit : Option Nat)
    (h : m.halted program = true) : m.step program limit = .ok m := by
  simp [step, halted_iff.mp h]

end Machine

end QuadAsm
