import QuadAsm.Proofs.Instruction.Words

/-! Which texts are integers.

A text means an integer when it is a literal, or one behind a single plus or minus sign
(`Numeral.Means`); which integer that is, is settled by the places of its digits. Every text is read
in one of three ways, and its meaning says in which: as the word of the integer, as a literal that
no register holds, or as no literal at all (`Numeral.literal_exact`). -/
namespace QuadAsm.Numeral

variable {w : List Char} {v : Int} {text : String} {word : Int64} {fault : Fault}

/-- The text is a literal, perhaps behind a sign, and stands for this integer. -/
inductive Means : List Char → Int → Prop where
  | unsigned {radix : Radix} {w : List Char} {n : Nat} (digits : Magnitude radix w n) : Means w n
  | plus {radix : Radix} {w : List Char} {n : Nat} (digits : Magnitude radix w n) :
      Means ('+' :: w) n
  | minus {radix : Radix} {w : List Char} {n : Nat} (digits : Magnitude radix w n) :
      Means ('-' :: w) (-n)

/-! ### One integer at most -/

theorem value?_eq_some_iff_means : value? w = some v ↔ Means w v := by
  constructor
  · intro worth
    obtain ⟨radix, denotes⟩ | ⟨radix, cs, n, rfl, digits, rfl⟩ := value?_eq_some_iff.mp worth
    · cases denotes with
      | plain digits => exact .unsigned digits
      | minus digits => exact .minus digits
    · exact .plus digits
  · intro means
    apply value?_eq_some_iff.mpr
    cases means with
    | unsigned digits => exact .inl ⟨_, .plain digits⟩
    | plus digits => exact .inr ⟨_, _, _, rfl, digits, rfl⟩
    | minus digits => exact .inl ⟨_, .minus digits⟩

theorem value?_eq_none_iff : value? w = none ↔ ∀ v, ¬ Means w v := by
  rw [Option.eq_none_iff_forall_ne_some]
  exact forall_congr' fun v => not_congr value?_eq_some_iff_means

/-! ### Reading -/

theorem read_eq_some_iff_means : read text = .ok (some word) ↔ Means text.toList word.toInt :=
  read_eq_some_iff.trans value?_eq_some_iff_means

theorem read_eq_none_iff : read text = .ok none ↔ ∀ v, ¬ Means text.toList v := by
  rw [← value?_eq_none_iff, read]
  cases worth : value? text.toList with
  | none => simp
  | some v =>
    -- A literal is read as its word, or refused.
    by_cases fits : Fits v
    · simp [word?, fits]
    · simp [word?, fits]

/-- A text is refused just when it means an integer that no register can hold. -/
theorem read_eq_error_iff : read text = .error fault ↔
    fault = .literalOutOfRange text ∧ ∃ v, Means text.toList v ∧ ¬ Fits v := by
  simp only [← value?_eq_some_iff_means]
  rw [read]
  cases worth : value? text.toList with
  | none => simp
  | some v =>
    by_cases fits : Fits v
    · simp [word?, fits]
    · simp [word?, fits, eq_comm]

/-- **Reading a literal is exact.** A text is read as a word just when it means this word's value: it
is a radix mark and digits of that radix, perhaps behind one sign, and the value is theirs. It is
refused just when the integer that it means fits no register, and then what is said quotes it. Any
other text is no literal. So the decimal of every word, the least one too, is read as this word. -/
theorem literal_exact (text : String) :
    (∀ word : Int64, read text = .ok (some word) ↔ Means text.toList word.toInt) ∧
      (∀ fault, read text = .error fault ↔
        fault = .literalOutOfRange text ∧ ∃ v, Means text.toList v ∧ ¬ Fits v) ∧
      (∀ fault, read text = .error fault → fault.kind = .malformedOperand ∧
        fault.message = "Integer literal '" ++ text ++ "' out of range") ∧
      (read text = .ok none ↔ ∀ v, ¬ Means text.toList v) ∧
      ∀ word : Int64, read (toString word) = .ok (some word) := by
  refine ⟨fun word => read_eq_some_iff_means, fun fault => read_eq_error_iff, ?_,
    read_eq_none_iff, read_toString⟩
  intro fault refused
  obtain ⟨rfl, _⟩ := read_eq_error_iff.mp refused
  exact ⟨rfl, rfl⟩

/-- The least word, in capitals. -/
example : read "-0X8000000000000000" = .ok (some Int64.minValue) := by cbv

end QuadAsm.Numeral
