/-! Integer literals and their values.

A literal is a sign, which may be missing, then a radix mark (`0x` or `0b`, or none
for decimal), then at least one digit of that radix. `value?` reads one as an
unbounded integer; `word?` says which integers fit a register. -/
namespace QuadAsm

/-- The radixes a literal can be written in. -/
inductive Radix where
  | binary
  | decimal
  | hexadecimal
  deriving DecidableEq, Repr

namespace Radix

def base : Radix → Nat
  | binary => 2
  | decimal => 10
  | hexadecimal => 16

/-- What a character is worth among the ASCII digits and letters. -/
def worth? (c : Char) : Option Nat :=
  if '0' ≤ c ∧ c ≤ '9' then some (c.toNat - '0'.toNat)
  else if 'a' ≤ c ∧ c ≤ 'z' then some (c.toNat - 'a'.toNat + 10)
  else if 'A' ≤ c ∧ c ≤ 'Z' then some (c.toNat - 'A'.toNat + 10)
  else none

/-- The value of a digit of the radix. -/
def digit? (radix : Radix) (c : Char) : Option Nat := (worth? c).filter (· < radix.base)

def isDigit (radix : Radix) (c : Char) : Bool := (radix.digit? c).isSome

/-- The radix a literal's mark names, and what follows the mark. -/
def ofMark : List Char → Radix × List Char
  | '0' :: 'x' :: digits => (hexadecimal, digits)
  | '0' :: 'X' :: digits => (hexadecimal, digits)
  | '0' :: 'b' :: digits => (binary, digits)
  | '0' :: 'B' :: digits => (binary, digits)
  | digits => (decimal, digits)

end Radix

namespace Numeral

/-- The value of a run of digits, the first the most significant, after `high`. -/
def fromDigits (radix : Radix) (high : Nat) (digits : List Nat) : Nat :=
  digits.foldl (fun value digit => radix.base * value + digit) high

/-- The value of a literal without its sign; `none` without a digit, or with a
character that is none. -/
def magnitude? (cs : List Char) : Option Nat :=
  match Radix.ofMark cs with
  | (_, []) => none
  | (radix, digits) => (digits.mapM radix.digit?).map (fromDigits radix 0)

/-- The value of a literal; `none` for a text that is no literal. -/
def value? : List Char → Option Int
  | '-' :: cs => (magnitude? cs).map fun n => -(n : Int)
  | '+' :: cs => (magnitude? cs).map fun n => (n : Int)
  | cs => (magnitude? cs).map fun n => (n : Int)

/-- The integers a register can hold. -/
def Fits (v : Int) : Prop := Int64.minValue.toInt ≤ v ∧ v ≤ Int64.maxValue.toInt

instance (v : Int) : Decidable (Fits v) := inferInstanceAs (Decidable (_ ∧ _))

/-- The word of an integer that fits a register. -/
def word? (v : Int) : Option Int64 := if Fits v then some (Int64.ofInt v) else none

theorem fits_toInt (w : Int64) : Fits w.toInt :=
  ⟨Int64.minValue_le_toInt w, Int64.toInt_le w⟩

/-- Every word is the word of its value. -/
theorem word?_toInt (w : Int64) : word? w.toInt = some w := by
  simp [word?, fits_toInt]

end Numeral

end QuadAsm
