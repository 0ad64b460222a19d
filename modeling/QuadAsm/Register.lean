/-! The four registers and their names. A name is read without regard to the case
of its ASCII letters and written in lower case. -/
namespace QuadAsm

inductive Register where
  | ax
  | bx
  | cx
  | dx
  deriving DecidableEq, Repr

namespace Register

/-- The registers in the order in which a bank lists them. -/
def all : List Register := [ax, bx, cx, dx]

def name : Register → String
  | ax => "ax"
  | bx => "bx"
  | cx => "cx"
  | dx => "dx"

/-- The register's place in `all`. -/
def index : Register → Nat
  | ax => 0
  | bx => 1
  | cx => 2
  | dx => 3

/-- The register of a name in any case. -/
def ofName? (text : String) : Option Register := all.find? fun r => r.name == text.toLower

theorem mem_all (r : Register) : r ∈ all := by cases r <;> decide

/-- A text reads as a register exactly when it is that register's name up to case. -/
theorem ofName?_eq_some_iff {text : String} {r : Register} :
    ofName? text = some r ↔ text.toLower = r.name := by
  constructor
  · intro h
    have named : (r.name == text.toLower) = true :=
      List.find?_some (p := fun r : Register => r.name == text.toLower) h
    exact (beq_iff_eq.mp named).symm
  · intro h
    rw [ofName?, h]
    cases r <;> decide

end Register

end QuadAsm
