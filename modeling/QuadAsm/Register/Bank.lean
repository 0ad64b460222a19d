import QuadAsm.Register

/-! The values of the four registers. A bank is fixed by what `get` reads from it
(`ext_get`), and `set` changes one such reading (`get_set`). -/
namespace QuadAsm

/-- One 64-bit word for each register, all zero at first. -/
structure Bank where
  ax : Int64 := 0
  bx : Int64 := 0
  cx : Int64 := 0
  dx : Int64 := 0
  deriving DecidableEq, Repr, Inhabited

namespace Bank

def get (bank : Bank) : Register → Int64
  | .ax => bank.ax
  | .bx => bank.bx
  | .cx => bank.cx
  | .dx => bank.dx

def set (bank : Bank) (r : Register) (value : Int64) : Bank :=
  match r with
  | .ax => { bank with ax := value }
  | .bx => { bank with bx := value }
  | .cx => { bank with cx := value }
  | .dx => { bank with dx := value }

/-- The bank with all registers zero. -/
def zero : Bank := {}

/-- The registers with their values, in listing order. -/
def entries (bank : Bank) : List (Register × Int64) := Register.all.map fun r => (r, bank.get r)

/-- The values alone, in listing order. -/
def toList (bank : Bank) : List Int64 := Register.all.map bank.get

/-- One line `ax = 0` for each register. -/
def text (bank : Bank) : String :=
  "\n".intercalate (bank.entries.map fun (r, value) => s!"{r.name} = {value}")

@[simp] theorem get_zero (r : Register) : zero.get r = 0 := by cases r <;> rfl

theorem get_set (bank : Bank) (r s : Register) (value : Int64) :
    (bank.set r value).get s = if r = s then value else bank.get s := by
  cases r <;> cases s <;> rfl

@[simp] theorem get_set_self (bank : Bank) (r : Register) (value : Int64) :
    (bank.set r value).get r = value := by simp [get_set]

theorem get_set_ne (bank : Bank) {r s : Register} (value : Int64) (h : r ≠ s) :
    (bank.set r value).get s = bank.get s := by simp [get_set, h]

theorem ext_get {a b : Bank} (h : ∀ r, a.get r = b.get r) : a = b := by
  obtain ⟨_, _, _, _⟩ := a
  obtain ⟨_, _, _, _⟩ := b
  have ax := h .ax
  have bx := h .bx
  have cx := h .cx
  have dx := h .dx
  simp only [get] at ax bx cx dx
  simp [ax, bx, cx, dx]

end Bank

end QuadAsm
