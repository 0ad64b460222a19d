/-! Sets of characters written as ranges of code points, the way the tables of Unicode
properties are. -/
namespace QuadAsm.Text

/-- Ranges of code points, both ends included. -/
abbrev CodePoints := List (Nat × Nat)

namespace CodePoints

def has (ranges : CodePoints) (c : Char) : Bool :=
  ranges.any fun (low, high) => low ≤ c.toNat && c.toNat ≤ high

/-- Whether no range is empty and none begins before the one ahead of it has ended, nor
below a given code point. A table in this order lists no character twice. -/
def ascendingFrom (least : Nat) : CodePoints → Bool
  | [] => true
  | (low, high) :: rest => least ≤ low && low ≤ high && ascendingFrom (high + 1) rest

end CodePoints

end QuadAsm.Text
