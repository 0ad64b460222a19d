import QuadAsm.Instruction.Reading

/-! What can be wrong with the words of a statement.

The words of a statement are read by calls one after the other, of which the first that is refused
says what is wrong. `Refuses` keeps the kinds of fault that this can be, and it has a lemma for
each way in which calls are put together. So of a statement there are three kinds
(`Operation.refuses_read`), and a fault of reading tokens or of running is none of them. -/
namespace QuadAsm

/-- Where the call is refused, the fault is of one of these kinds. -/
def Refuses {α : Type} (kinds : List Fault.Kind) (call : Except Fault α) : Prop :=
  ∀ fault, call = .error fault → fault.kind ∈ kinds

namespace Refuses

variable {α β : Type} {kinds : List Fault.Kind}

theorem ok (a : α) : Refuses kinds (.ok a) := nofun

theorem error {fault : Fault} (h : fault.kind ∈ kinds) :
    Refuses kinds (.error fault : Except Fault α) := by
  intro _ refused
  cases refused
  exact h

theorem bind {call : Except Fault α} {next : α → Except Fault β} (first : Refuses kinds call)
    (later : ∀ a, Refuses kinds (next a)) : Refuses kinds (call >>= next) := by
  cases call with
  | error fault => exact fun _ refused => first _ (by cases refused; rfl)
  | ok a => exact later a

theorem mapM {f : α → Except Fault β} (each : ∀ a, Refuses kinds (f a)) (l : List α) :
    Refuses kinds (l.mapM f) := by
  induction l with
  | nil => exact ok []
  | cons a l ih =>
    rw [List.mapM_cons]
    exact (each a).bind fun _ => ih.bind fun _ => ok _

end Refuses

/-! ### The words of a statement -/

/-- The kinds of fault that the words of a statement can have. -/
def Fault.Kind.ofWords : List Fault.Kind := [unknownRegister, malformedOperand, malformedInstruction]

open Fault.Kind (ofWords)

theorem Opcode.refuses_read (text : String) : Refuses ofWords (read text) := by
  unfold read
  split
  · exact .ok _
  · exact .error (by simp [Fault.kind, ofWords])

theorem Numeral.refuses_read (text : String) : Refuses ofWords (read text) := by
  unfold read
  split
  · exact .ok _
  · split
    · exact .ok _
    · exact .error (by simp [Fault.kind, ofWords])

theorem Operand.refuses_read (text : String) : Refuses ofWords (read text) := by
  unfold read
  split
  · exact .ok _
  · split
    · rename_i fault refused
      exact .error (Numeral.refuses_read text fault refused)
    · exact .ok _
    · split
      · exact .ok _
      · exact .error (by simp [Fault.kind, ofWords])

namespace Operation

theorem refuses_asDestination (opcode : Opcode) (operand : Operand) :
    Refuses ofWords (asDestination opcode operand) := by
  unfold asDestination
  split
  · exact .ok _
  · exact .error (by simp [Fault.kind, ofWords])
  · exact .error (by simp [Fault.kind, ofWords])

theorem refuses_asSource (operand : Operand) : Refuses ofWords (asSource operand) := by
  unfold asSource
  split
  · exact .ok _
  · exact .error (by simp [Fault.kind, ofWords])

theorem refuses_asTarget (opcode : Opcode) (operand : Operand) :
    Refuses ofWords (asTarget opcode operand) := by
  unfold asTarget
  split
  · exact .error (by simp [Fault.kind, ofWords])
  · exact .ok _

theorem refuses_ofOperands (opcode : Opcode) (operands : List Operand) :
    Refuses ofWords (ofOperands opcode operands) := by
  unfold ofOperands
  split
  case h_1 | h_3 | h_5 =>
    exact (refuses_asDestination _ _).bind fun _ => (refuses_asSource _).bind fun _ => .ok _
  case h_2 | h_4 => exact (refuses_asDestination _ _).bind fun _ => .ok _
  case h_6 => exact (refuses_asSource _).bind fun _ => (refuses_asSource _).bind fun _ => .ok _
  case h_7 => exact (refuses_asTarget _ _).bind fun _ => .ok _
  case h_8 => exact .error (by simp [Fault.kind, ofWords])

/-- The words of a statement have faults of three kinds only. -/
theorem refuses_read (mnemonic : String) (texts : List String) :
    Refuses ofWords (read mnemonic texts) := by
  unfold read
  apply (Opcode.refuses_read mnemonic).bind
  intro opcode
  apply (Refuses.mapM Operand.refuses_read texts).bind
  intro operands
  exact refuses_ofOperands opcode operands

end Operation

end QuadAsm
