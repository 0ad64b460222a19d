import QuadAsm.Proofs.Instruction.Literals
import QuadAsm.Proofs.Token.Munch

/-! Which words are read as operands.

A word that is read as an operand is a name, or a literal that a register can hold
(`Operand.read_cases`); and a literal is what a token of the kind is spelled like, or that behind a
plus sign (`Numeral.value?_eq_some_iff`). So a text can say every such word, as one token, but not
the plus sign, which starts no token: a literal behind one is read as an operand, and cannot be
written (`Operand.read_plus`). This is the one difference (`Operand.written_but_plus`). -/
namespace QuadAsm

variable {radix : Radix} {cs digits mark w : List Char} {values : List Nat} {n : Nat} {v : Int}
  {text : String}

/-! ### Literals, from their values -/

namespace Radix

/-- A text is a mark and what follows it. -/
theorem exists_mark (cs : List Char) :
    ∃ mark, (ofMark cs).1.Mark mark ∧ cs = mark ++ (ofMark cs).2 := by
  fun_cases ofMark cs with
  | case1 digits => exact ⟨['0', 'x'], .inl rfl, rfl⟩
  | case2 digits => exact ⟨['0', 'X'], .inr rfl, rfl⟩
  | case3 digits => exact ⟨['0', 'b'], .inl rfl, rfl⟩
  | case4 digits => exact ⟨['0', 'B'], .inr rfl, rfl⟩
  | case5 => exact ⟨[], rfl, rfl⟩

theorem forall_digit_of_mapM (h : digits.mapM radix.digit? = some values) :
    List.Forall₂ radix.Digit digits values := by
  induction digits generalizing values with
  | nil =>
    cases h
    exact .nil
  | cons c digits ih =>
    rw [List.mapM_cons] at h
    obtain ⟨value, first, h⟩ := Option.bind_eq_some_iff.mp h
    obtain ⟨later, others, h⟩ := Option.bind_eq_some_iff.mp h
    cases h
    exact .cons (digit?_eq_some_iff.mp first) (ih others)

end Radix

namespace Numeral

/-- Only a mark with digits has a magnitude. -/
theorem magnitude?_eq_some_iff : magnitude? cs = some n ↔ ∃ radix, Magnitude radix cs n := by
  constructor
  · intro h
    obtain ⟨mark, marked, whole⟩ := Radix.exists_mark cs
    unfold magnitude? at h
    split at h
    · cases h
    · rename_i radix digits nonempty split
      rw [split] at marked whole
      obtain ⟨values, worths, rfl⟩ := Option.map_eq_some_iff.mp h
      rw [whole, fromDigits_eq]
      exact ⟨radix, .intro marked (fun empty => nonempty empty) (Radix.forall_digit_of_mapM worths)⟩
  · rintro ⟨radix, magnitude⟩
    exact magnitude.magnitude?

theorem value?_minus (cs : List Char) :
    value? ('-' :: cs) = Option.map (fun n : Nat => -(n : Int)) (magnitude? cs) := by
  rw [value?]
  cases magnitude? cs <;> rfl

theorem value?_plus (cs : List Char) :
    value? ('+' :: cs) = Option.map (fun n : Nat => (n : Int)) (magnitude? cs) := by
  rw [value?]
  cases magnitude? cs <;> rfl

/-- What is worth an integer is a literal, or one behind a plus sign. -/
theorem value?_eq_some_iff : value? w = some v ↔ (∃ radix, Denotes radix w v) ∨
    ∃ radix cs n, w = '+' :: cs ∧ Magnitude radix cs n ∧ v = n := by
  constructor
  · intro h
    by_cases minus : w.head? = some '-'
    · obtain ⟨cs, rfl⟩ := List.head?_eq_some_iff.mp minus
      obtain ⟨n, magnitude, rfl⟩ := Option.map_eq_some_iff.mp (value?_minus cs ▸ h)
      obtain ⟨radix, magnitude⟩ := magnitude?_eq_some_iff.mp magnitude
      exact .inl ⟨radix, .minus magnitude⟩
    by_cases plus : w.head? = some '+'
    · obtain ⟨cs, rfl⟩ := List.head?_eq_some_iff.mp plus
      obtain ⟨n, magnitude, rfl⟩ := Option.map_eq_some_iff.mp (value?_plus cs ▸ h)
      obtain ⟨radix, magnitude⟩ := magnitude?_eq_some_iff.mp magnitude
      exact .inr ⟨radix, cs, n, rfl, magnitude, rfl⟩
    · have unsigned : ∀ c ∈ w.head?, c ≠ '-' ∧ c ≠ '+' := by
        intro c first
        exact ⟨fun same => minus (same ▸ first), fun same => plus (same ▸ first)⟩
      obtain ⟨n, magnitude, rfl⟩ := Option.map_eq_some_iff.mp (value?_eq unsigned ▸ h)
      obtain ⟨radix, magnitude⟩ := magnitude?_eq_some_iff.mp magnitude
      exact .inl ⟨radix, .plain magnitude⟩
  · rintro (⟨radix, denotes⟩ | ⟨radix, cs, n, rfl, magnitude, rfl⟩)
    · exact denotes.value?
    · rw [value?_plus, magnitude.magnitude?, Option.map_some]

/-- A literal is spelled as a token of its kind. -/
theorem Magnitude.spelled (h : Magnitude radix cs n) (sign : Token.Signed cs w) :
    (Token.Kind.literal radix).Spelled w := by
  obtain ⟨marked, nonempty, worths⟩ := h
  have all := Radix.isDigit_of_values worths
  cases radix with
  | decimal =>
    cases marked
    exact ⟨_, sign, nonempty, fun c member => Token.isDigit_iff_range.mp (all c member)⟩
  | binary =>
    have binary (c : Char) (member : c ∈ _) := Token.isBinaryDigit_iff.mp (all c member)
    rcases marked with rfl | rfl
    · exact ⟨'b', _, sign, .inl rfl, nonempty, binary⟩
    · exact ⟨'B', _, sign, .inr rfl, nonempty, binary⟩
  | hexadecimal =>
    have hexadecimal (c : Char) (member : c ∈ _) := Token.isHexadecimalDigit_iff.mp (all c member)
    rcases marked with rfl | rfl
    · exact ⟨'x', _, sign, .inl rfl, nonempty, hexadecimal⟩
    · exact ⟨'X', _, sign, .inr rfl, nonempty, hexadecimal⟩

theorem Denotes.spelled (h : Denotes radix w v) : (Token.Kind.literal radix).Spelled w := by
  cases h with
  | plain magnitude => exact magnitude.spelled (.inl rfl)
  | minus magnitude => exact magnitude.spelled (.inr rfl)

theorem read_eq_some_iff {word : Int64} :
    read text = .ok (some word) ↔ value? text.toList = some word.toInt := by
  unfold read
  split
  · rename_i none
    simp [none]
  · rename_i v worth
    rw [worth, Option.some_inj]
    by_cases fits : Fits v
    · obtain ⟨other, rfl⟩ := exists_word fits
      simp [word?_toInt, Int64.toInt_inj]
    · have other : v ≠ word.toInt := fun same => fits (same ▸ fits_toInt word)
      simp [word?, fits, other]

end Numeral

/-! ### Names -/

namespace Text

/-- A name is one in any case. -/
theorem isName_toLower (text : String) : isName text.toLower.toList = isName text.toList := by
  rw [toList_toLower]
  cases text.toList with
  | nil => rfl
  | cons c cs => simp [isName, List.all_map, Function.comp_def, isNameStart_toLower,
      isNamePart_toLower]

end Text

/-- What is read as an operand is a name or a literal that a register can hold. -/
theorem Operand.read_cases {operand : Operand} (h : read text = .ok operand) :
    Text.isName text.toList = true ∨
      ∃ word, operand = literal word ∧ Numeral.value? text.toList = some word.toInt := by
  unfold read at h
  split at h
  · rename_i r named
    have lower := Register.isName_name r
    rw [← Register.ofName?_eq_some_iff.mp named, Text.isName_toLower] at lower
    exact .inl lower
  · split at h
    · cases h
    · rename_i word worth
      cases h
      exact .inr ⟨word, rfl, Numeral.read_eq_some_iff.mp worth⟩
    · split at h
      · exact .inl (by assumption)
      · cases h

/-! ### One token -/

namespace Token

variable {kind : Kind} {cs : List Char}

/-- The text is one token, of a kind an operand can have. -/
def IsOperand (text : String) : Prop :=
  ∃ kind : Kind, kind.isOperand = true ∧
    Token.read text = .ok [⟨kind, text, ⟨0, text.utf8ByteSize⟩⟩]

theorem isOperand_of_spelled (operand : kind.isOperand = true) (h : kind.Spelled text.toList) :
    IsOperand text := by
  have scans : Scans [] 0 text.toList _ :=
    Scans.of_matches (Kind.matches_iff_spelled.mpr h) (by simp) 0
  have kept : kind.isTrivia = false := by cases kind <;> first | rfl | cases operand
  refine ⟨kind, operand, read_of_reads ⟨_, scans, ?_⟩⟩
  simp [bytes, kept]

/-- No token starts with a plus sign. -/
theorem stuck_plus (cs : List Char) : Stuck ('+' :: cs) := by
  intro kind w start spelled
  obtain ⟨c, w, rfl, starts, _⟩ := Kind.eq_cons_of_matches (Kind.matches_iff_spelled.mpr spelled)
  obtain ⟨rfl, _⟩ := List.cons_prefix_cons.mp start
  rw [Kind.starts_iff] at starts
  cases kind <;> simp only [] at starts <;> revert starts <;> decide

/-- What starts with a plus sign is refused there. -/
theorem read_of_plus (plus : text.toList.head? = some '+') :
    Token.read text = .error ((Fault.unknownCharacter '+').at ⟨0, 1⟩) := by
  obtain ⟨cs, whole⟩ := List.head?_eq_some_iff.mp plus
  exact read_of_stuck (lexed_nil_iff.mpr whole) (stuck_plus cs)

theorem IsOperand.ne_plus (h : IsOperand text) : text.toList.head? ≠ some '+' := by
  intro plus
  obtain ⟨kind, _, whole⟩ := h
  rw [read_of_plus plus] at whole
  cases whole

end Token

/-! ### Operands -/

theorem Operand.read_of_value? {word : Int64} (unnamed : Register.ofName? text = none)
    (worth : Numeral.value? text.toList = some word.toInt) : read text = .ok (.literal word) := by
  rw [read, unnamed]
  simp only [Numeral.read_eq_some_iff.mpr worth]

theorem Numeral.Denotes.isOperand (h : Denotes radix text.toList v) : Token.IsOperand text :=
  Token.isOperand_of_spelled rfl h.spelled

namespace Operand

/-- **A word that is read as an operand can be written, but for a plus sign.** It is one token, of
a kind an operand has, just when it does not start with a plus sign. One that does is refused at
that sign, while the word behind it is the same operand and can be written. -/
theorem written_but_plus {operand : Operand} (h : Operand.read text = .ok operand) :
    (Token.IsOperand text ↔ text.toList.head? ≠ some '+') ∧
      ∀ word, text = "+" ++ word →
        Token.read text = .error ((Fault.unknownCharacter '+').at ⟨0, 1⟩) ∧
          Operand.read word = .ok operand ∧ Token.IsOperand word := by
  rcases read_cases h with named | ⟨value, rfl, worth⟩
  · have written := Token.isOperand_of_spelled rfl (Text.isName_iff_spelled.mp named)
    refine ⟨iff_of_true written written.ne_plus, ?_⟩
    rintro word rfl
    exact absurd (by simp) written.ne_plus
  rcases Numeral.value?_eq_some_iff.mp worth with
    ⟨radix, denotes⟩ | ⟨radix, cs, n, plus, magnitude, same⟩
  · refine ⟨iff_of_true denotes.isOperand denotes.isOperand.ne_plus, ?_⟩
    rintro word rfl
    exact absurd (by simp) denotes.isOperand.ne_plus
  · have first : text.toList.head? = some '+' := by rw [plus]; rfl
    refine ⟨iff_of_false (fun written => written.ne_plus first) (not_not_intro first), ?_⟩
    rintro word rfl
    obtain rfl : word.toList = cs := by simpa using plus
    have denotes : Numeral.Denotes radix word.toList value.toInt := same ▸ .plain magnitude
    exact ⟨Token.read_of_plus first, read_of_denotes denotes, denotes.isOperand⟩

/-- A hexadecimal behind a plus sign. -/
theorem written_but_plus_hexadecimal : Operand.read "+0x1F" = .ok (.literal 31) ∧
    Operand.read "0x1F" = .ok (.literal 31) ∧ Token.IsOperand "0x1F" := by
  have read : Operand.read "+0x1F" = .ok (.literal 31) :=
    read_of_value? (Register.ofName?_eq_none rfl (by decide)) (by decide)
  exact ⟨read, ((written_but_plus read).2 "0x1F" rfl).2⟩

/-- The integer behind a plus sign is an operand that no text can say. -/
theorem read_plus : Operand.read "+5" = .ok (.literal 5) ∧
    Token.read "+5" = .error ((Fault.unknownCharacter '+').at ⟨0, 1⟩) ∧
    ¬∀ text operand, Operand.read text = .ok operand → Token.IsOperand text := by
  have read : Operand.read "+5" = .ok (.literal 5) :=
    read_of_value? (Register.ofName?_eq_none rfl (by decide)) (by decide)
  exact ⟨read, Token.read_of_plus rfl, fun all => (all _ _ read).ne_plus rfl⟩

end Operand

end QuadAsm
