import Mathlib.Data.Nat.Digits.Defs
import QuadAsm.Proofs.Instruction.Printed

/-! What a literal is worth.

`Numeral.Denotes` says which integer a literal stands for, by the places of its digits among all
digits and by positions, not by how it is read. Every word that is spelled as a literal denotes an
integer (`exists_denotes`), and it is read as this integer, or refused where no register can hold it
(`read_of_denotes`, `read_eq_error`). So of the words that are operands, none is malformed. -/
namespace QuadAsm

variable {radix : Radix} {c : Char} {mark digits w : List Char} {values : List Nat}
  {value n : Nat} {v : Int} {text : String}

/-! ### Digits -/

namespace Radix

/-- A digit of the radix and its value: its place among the digits, in either case. -/
def Digit (radix : Radix) (c : Char) (value : Nat) : Prop :=
  value < radix.base ∧ "0123456789abcdef".toList[value]? = some c.toLower

/-- What stands before the digits of the radix. -/
def Mark : Radix → List Char → Prop
  | binary, mark => mark = ['0', 'b'] ∨ mark = ['0', 'B']
  | decimal, mark => mark = []
  | hexadecimal, mark => mark = ['0', 'x'] ∨ mark = ['0', 'X']

/-- The digits are the first sixteen of `0` to `9` and `a` to `f`. -/
theorem getElem?_digits : ∀ value < 16, ∃ d, "0123456789abcdef".toList[value]? = some d ∧
    d.toNat = if value < 10 then 48 + value else 87 + value := by
  intro value small
  refine ⟨"0123456789abcdef".toList[value], List.getElem?_eq_getElem small, ?_⟩
  revert value
  decide

theorem digit?_eq_some_iff : radix.digit? c = some value ↔ radix.Digit c value := by
  have base : radix.base ≤ 16 := by cases radix <;> decide
  rw [digit?, Option.filter_eq_some_iff, decide_eq_true_iff, and_comm]
  refine and_congr_right fun small => ?_
  obtain ⟨d, place, code⟩ := getElem?_digits value (Nat.lt_of_lt_of_le small base)
  rw [place, Option.some_inj, Text.eq_iff_toNat, Text.toNat_toLower, code, worth?_eq]
  grind

theorem mapM_digit? (worths : List.Forall₂ radix.Digit digits values) :
    digits.mapM radix.digit? = some values := by
  induction worths with
  | nil => rfl
  | cons first _ ih =>
    rw [List.mapM_cons, digit?_eq_some_iff.mpr first, ih]
    rfl

theorem isDigit_of_digit (h : radix.Digit c value) : radix.isDigit c = true :=
  Option.isSome_iff_exists.mpr ⟨value, digit?_eq_some_iff.mpr h⟩

theorem isDigit_of_values (worths : List.Forall₂ radix.Digit digits values) :
    ∀ c ∈ digits, radix.isDigit c = true := by
  induction worths with
  | nil => nofun
  | cons first _ ih => exact List.forall_mem_cons.mpr ⟨isDigit_of_digit first, ih⟩

theorem exists_values (all : ∀ c ∈ digits, radix.isDigit c = true) :
    ∃ values, List.Forall₂ radix.Digit digits values := by
  induction digits with
  | nil => exact ⟨[], .nil⟩
  | cons c digits ih =>
    obtain ⟨first, later⟩ := List.forall_mem_cons.mp all
    obtain ⟨value, worth⟩ := Option.isSome_iff_exists.mp first
    obtain ⟨values, worths⟩ := ih later
    exact ⟨value :: values, .cons (digit?_eq_some_iff.mp worth) worths⟩

/-- A mark and digits are told apart again. -/
theorem ofMark_append (marked : radix.Mark mark) (all : ∀ c ∈ digits, radix.isDigit c = true) :
    ofMark (mark ++ digits) = (radix, digits) := by
  cases radix with
  | binary | hexadecimal => rcases marked with rfl | rfl <;> rfl
  | decimal =>
    cases marked
    exact ofMark_decimal all

end Radix

/-! ### Literals -/

namespace Numeral

/-- The word is a mark and digits, and worth this number: each digit its value, times the base for
every digit behind it. -/
inductive Magnitude (radix : Radix) : List Char → Nat → Prop where
  | intro {mark digits : List Char} {values : List Nat} (marked : radix.Mark mark)
      (nonempty : digits ≠ []) (worths : List.Forall₂ radix.Digit digits values) :
      Magnitude radix (mark ++ digits) (Nat.ofDigits radix.base values.reverse)

/-- The word is a literal of the radix, and worth this integer. -/
inductive Denotes (radix : Radix) : List Char → Int → Prop where
  | plain {w : List Char} {n : Nat} (h : Magnitude radix w n) : Denotes radix w n
  | minus {w : List Char} {n : Nat} (h : Magnitude radix w n) : Denotes radix ('-' :: w) (-n)

theorem fromDigits_eq (values : List Nat) :
    fromDigits radix 0 values = Nat.ofDigits radix.base values.reverse := by
  rw [Nat.ofDigits_eq_foldr, List.foldr_reverse, fromDigits]
  simp only [Nat.add_comm, Nat.cast_id]

theorem Magnitude.magnitude? (h : Magnitude radix w n) : magnitude? w = some n := by
  obtain ⟨marked, nonempty, worths⟩ := h
  obtain ⟨c, digits, rfl⟩ := List.exists_cons_of_ne_nil nonempty
  unfold Numeral.magnitude?
  rw [Radix.ofMark_append marked (Radix.isDigit_of_values worths)]
  simp only [Radix.mapM_digit? worths, Option.map_some, fromDigits_eq]

/-- Behind its sign a literal starts with a decimal digit. -/
theorem Magnitude.eq_cons (h : Magnitude radix w n) :
    ∃ c cs, w = c :: cs ∧ c.isDigit = true := by
  obtain ⟨marked, nonempty, worths⟩ := h
  cases radix with
  | binary | hexadecimal => rcases marked with rfl | rfl <;> exact ⟨'0', _, rfl, by decide⟩
  | decimal =>
    cases marked
    cases worths with
    | nil => exact absurd rfl nonempty
    | cons first _ =>
      have range := Radix.isDigit_iff.mp (Radix.isDigit_of_digit first)
      refine ⟨_, _, rfl, Text.isDigit_iff.mpr ?_⟩
      simp only [Radix.base] at range
      omega

theorem Denotes.value? (h : Denotes radix w v) : value? w = some v := by
  cases h with
  | minus h => rw [Numeral.value?, h.magnitude?]; rfl
  | plain h =>
    obtain ⟨c, cs, rfl, digit⟩ := h.eq_cons
    rw [value?_eq, h.magnitude?]
    · rfl
    · rintro _ ⟨⟩
      constructor <;> rintro rfl <;> exact absurd digit (by decide)

/-- A word denotes one integer at most. -/
theorem Denotes.unique {v' : Int} (h : Denotes radix w v) (h' : Denotes radix w v') : v = v' :=
  Option.some.inj (h.value?.symm.trans h'.value?)

theorem exists_magnitude (marked : radix.Mark mark) (nonempty : digits ≠ [])
    (all : ∀ c ∈ digits, radix.isDigit c = true) : ∃ n, Magnitude radix (mark ++ digits) n := by
  obtain ⟨values, worths⟩ := Radix.exists_values all
  exact ⟨_, .intro marked nonempty worths⟩

theorem Magnitude.signed {text : List Char} (h : Magnitude radix text n)
    (sign : Token.Signed text w) : ∃ v, Denotes radix w v := by
  rcases sign with rfl | rfl
  · exact ⟨_, .plain h⟩
  · exact ⟨_, .minus h⟩

/-- What is spelled as a literal denotes an integer. -/
theorem exists_denotes (h : (Token.Kind.literal radix).Spelled w) : ∃ v, Denotes radix w v := by
  cases radix with
  | decimal =>
    obtain ⟨digits, sign, nonempty, all⟩ := h
    have marked : Radix.decimal.Mark [] := rfl
    obtain ⟨n, magnitude⟩ :=
      exists_magnitude marked nonempty fun c member => Token.isDigit_iff_range.mpr (all c member)
    exact magnitude.signed sign
  | binary =>
    obtain ⟨letter, digits, sign, letters, nonempty, all⟩ := h
    have marked : Radix.binary.Mark ['0', letter] := by
      rcases letters with rfl | rfl
      · exact .inl rfl
      · exact .inr rfl
    obtain ⟨n, magnitude⟩ :=
      exists_magnitude marked nonempty fun c member => Token.isBinaryDigit_iff.mpr (all c member)
    exact magnitude.signed sign
  | hexadecimal =>
    obtain ⟨letter, digits, sign, letters, nonempty, all⟩ := h
    have marked : Radix.hexadecimal.Mark ['0', letter] := by
      rcases letters with rfl | rfl
      · exact .inl rfl
      · exact .inr rfl
    obtain ⟨n, magnitude⟩ := exists_magnitude marked nonempty fun c member =>
      Token.isHexadecimalDigit_iff.mpr (all c member)
    exact magnitude.signed sign

theorem exists_word (h : Fits v) : ∃ word : Int64, word.toInt = v :=
  ⟨Int64.ofInt v, Int64.toInt_ofInt_of_le h.1 (Int.lt_add_one_of_le h.2)⟩

theorem read_of_denotes {word : Int64} (h : Denotes radix text.toList word.toInt) :
    read text = .ok (some word) := by
  rw [read, h.value?]
  simp only [word?_toInt]

theorem read_eq_error (h : Denotes radix text.toList v) (large : ¬ Fits v) :
    read text = .error (.literalOutOfRange text) := by
  rw [read, h.value?]
  simp only [word?, if_neg large]

/-- A literal is no register's name. -/
theorem Denotes.ofName? (h : Denotes radix text.toList v) : Register.ofName? text = none := by
  generalize split : text.toList = w at h
  cases h with
  | minus => exact Register.ofName?_eq_none split (by decide)
  | plain h =>
    obtain ⟨c, cs, rfl, digit⟩ := h.eq_cons
    refine Register.ofName?_eq_none split (Bool.eq_false_iff.mpr fun alpha => ?_)
    rw [Text.isDigit_iff] at digit
    rw [Text.isAlpha_iff] at alpha
    omega

end Numeral

/-! ### Operands -/

namespace Operand

theorem read_of_denotes {word : Int64} (h : Numeral.Denotes radix text.toList word.toInt) :
    read text = .ok (.literal word) := by
  rw [read, h.ofName?]
  simp only [Numeral.read_of_denotes h]

theorem read_eq_error (h : Numeral.Denotes radix text.toList v) (large : ¬ Numeral.Fits v) :
    read text = .error (.literalOutOfRange text) := by
  rw [read, h.ofName?]
  simp only [Numeral.read_eq_error h large]

theorem read_of_toLower {r : Register} (same : text.toLower = r.name) :
    read text = .ok (.register r) := by
  rw [read, Register.ofName?_eq_some_iff.mpr same]

/-- A name that no register has is a label. -/
theorem read_of_isName (named : Text.isName text.toList = true)
    (other : ∀ r : Register, text.toLower ≠ r.name) : read text = .ok (.label text) := by
  refine read_eq_label_iff.mpr ⟨rfl, named, ?_⟩
  exact Option.eq_none_iff_forall_ne_some.mpr fun r same =>
    other r (Register.ofName?_eq_some_iff.mp same)

/-- A name is never refused. -/
theorem exists_read_of_isName (named : Text.isName text.toList = true) :
    ∃ operand, read text = .ok operand := by
  by_cases h : ∃ r : Register, text.toLower = r.name
  · obtain ⟨r, same⟩ := h
    exact ⟨_, read_of_toLower same⟩
  · exact ⟨_, read_of_isName named fun r same => h ⟨r, same⟩⟩

end Operand
end QuadAsm
