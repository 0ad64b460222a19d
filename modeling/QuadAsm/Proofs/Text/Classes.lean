import QuadAsm.Token.Pattern

/-! The classes of characters as ranges of code points.

Every class a token pattern is made of is a union of a few ranges, so whether two classes
meet, or one lies in the other, is a question about numbers. -/
namespace QuadAsm

namespace Text

theorem isDigit_iff {c : Char} : c.isDigit = true ↔ 48 ≤ c.toNat ∧ c.toNat ≤ 57 := by
  simp [Char.isDigit, UInt32.le_iff_toNat_le]

theorem isAlpha_iff {c : Char} : c.isAlpha = true ↔
    (65 ≤ c.toNat ∧ c.toNat ≤ 90) ∨ (97 ≤ c.toNat ∧ c.toNat ≤ 122) := by
  show (decide (c.val ≥ 'A'.val ∧ c.val ≤ 'Z'.val) ||
    (decide (c.val ≥ 'a'.val) && decide (c.val ≤ 'z'.val))) = true ↔ _
  simp [UInt32.le_iff_toNat_le]

theorem eq_iff_toNat {c d : Char} : c = d ↔ c.toNat = d.toNat := Char.toNat_inj.symm

theorem isNameStart_iff {c : Char} : isNameStart c = true ↔
    (65 ≤ c.toNat ∧ c.toNat ≤ 90) ∨ (97 ≤ c.toNat ∧ c.toNat ≤ 122) ∨ c.toNat = 95 := by
  rw [isNameStart, Bool.or_eq_true, isAlpha_iff, beq_iff_eq, eq_iff_toNat, or_assoc]
  rfl

theorem isNamePart_iff {c : Char} : isNamePart c = true ↔
    (65 ≤ c.toNat ∧ c.toNat ≤ 90) ∨ (97 ≤ c.toNat ∧ c.toNat ≤ 122) ∨ c.toNat = 95 ∨
      (48 ≤ c.toNat ∧ c.toNat ≤ 57) := by
  rw [isNamePart, Char.isAlphanum, Bool.or_eq_true, Bool.or_eq_true, isAlpha_iff, isDigit_iff,
    beq_iff_eq, eq_iff_toNat]
  show _ ∨ c.toNat = 95 ↔ _
  omega

theorem utf8Size_eq_one_iff {c : Char} : c.utf8Size = 1 ↔ c.toNat < 128 := by
  rw [Char.utf8Size_eq_one_iff, UInt32.le_iff_toNat_le]
  exact Nat.lt_succ_iff.symm

theorem toNat_toLower (c : Char) : c.toLower.toNat =
    if 65 ≤ c.toNat ∧ c.toNat ≤ 90 then c.toNat + 32 else c.toNat := by
  have capital : (c.val ≥ 'A'.val ∧ c.val ≤ 'Z'.val) ↔ 65 ≤ c.toNat ∧ c.toNat ≤ 90 := by
    simp only [ge_iff_le, UInt32.le_iff_toNat_le]
    rfl
  unfold Char.toLower
  split
  · rename_i upper
    have upper := capital.mp upper
    rw [if_pos upper]
    show (c.val + 32).toNat = _
    rw [UInt32.toNat_add]
    exact Nat.mod_eq_of_lt (Nat.lt_of_le_of_lt (Nat.add_le_add_right upper.2 32) (by decide))
  · rename_i other
    rw [if_neg (mt capital.mpr other)]

theorem toList_toLower (text : String) : text.toLower.toList = text.toList.map Char.toLower :=
  String.toList_map

theorem isNameStart_toLower (c : Char) : isNameStart c.toLower = isNameStart c := by
  rw [Bool.eq_iff_iff, isNameStart_iff, isNameStart_iff, toNat_toLower]
  split <;> omega

theorem isNamePart_toLower (c : Char) : isNamePart c.toLower = isNamePart c := by
  rw [Bool.eq_iff_iff, isNamePart_iff, isNamePart_iff, toNat_toLower]
  split <;> omega

end Text

namespace Radix

theorem isDigit_iff_worth {radix : Radix} {c : Char} :
    radix.isDigit c = true ↔ ∃ n, worth? c = some n ∧ n < radix.base := by
  simp [isDigit, digit?, Option.isSome_filter, Option.any_eq_true]

theorem worth?_eq (c : Char) : worth? c =
    if 48 ≤ c.toNat ∧ c.toNat ≤ 57 then some (c.toNat - 48)
    else if 97 ≤ c.toNat ∧ c.toNat ≤ 122 then some (c.toNat - 97 + 10)
    else if 65 ≤ c.toNat ∧ c.toNat ≤ 90 then some (c.toNat - 65 + 10)
    else none := rfl

/-- The digits of a radix are the first of the ten digits and of the letters of each case. -/
theorem isDigit_iff {radix : Radix} {c : Char} : radix.isDigit c = true ↔
    (48 ≤ c.toNat ∧ c.toNat ≤ 57 ∧ c.toNat < 48 + radix.base) ∨
      (97 ≤ c.toNat ∧ c.toNat < 87 + radix.base) ∨ (65 ≤ c.toNat ∧ c.toNat < 55 + radix.base) := by
  have base : radix.base ≤ 16 := by cases radix <;> decide
  rw [isDigit_iff_worth, worth?_eq]
  split
  · simp only [Option.some.injEq, exists_eq_left']
    omega
  · split
    · simp only [Option.some.injEq, exists_eq_left']
      omega
    · split
      · simp only [Option.some.injEq, exists_eq_left']
        omega
      · simp only [reduceCtorEq, false_and, exists_false, false_iff]
        omega

theorem isNamePart_of_isDigit {radix : Radix} {c : Char} (h : radix.isDigit c = true) :
    Text.isNamePart c = true := by
  have base : radix.base ≤ 16 := by cases radix <;> decide
  rw [isDigit_iff] at h
  rw [Text.isNamePart_iff]
  omega

/-- Decimal digits have no mark: its second character is a letter. -/
theorem ofMark_decimal {cs : List Char} (all : ∀ c ∈ cs, decimal.isDigit c = true) :
    ofMark cs = (decimal, cs) := by
  unfold ofMark
  split
  · exact absurd (all 'x' (by simp)) (by decide)
  · exact absurd (all 'X' (by simp)) (by decide)
  · exact absurd (all 'b' (by simp)) (by decide)
  · exact absurd (all 'B' (by simp)) (by decide)
  · rfl

end Radix

theorem Token.isSeparator_iff {c : Char} :
    isSeparator c = true ↔ c.toNat = 32 ∨ c.toNat = 9 ∨ c.toNat = 13 := by
  simp only [isSeparator, Bool.or_eq_true, beq_iff_eq, Text.eq_iff_toNat, or_assoc]
  rfl

end QuadAsm
