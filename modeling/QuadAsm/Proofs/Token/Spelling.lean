import QuadAsm.Proofs.Text.Classes

/-! How tokens are spelled.

`Kind.Spelled` says of each of the nine kinds, in plain words and ranges of characters, which
texts are tokens of it. The patterns the scanner goes by match just these texts
(`Kind.matches_iff_spelled`). -/
namespace QuadAsm.Token

/-- The text, perhaps behind a minus sign. -/
def Signed (text w : List Char) : Prop := w = text ∨ w = '-' :: text

/-- The texts that are tokens of a kind. -/
def Kind.Spelled : Kind → List Char → Prop
  | .whitespace, w => w ≠ [] ∧ ∀ c ∈ w, c = ' ' ∨ c = '\t' ∨ c = '\r'
  | .comment, w => ∃ text, w = ';' :: text ∧ '\n' ∉ text
  | .newline, w => w = ['\n']
  | .literal .decimal, w =>
    ∃ digits, Signed digits w ∧ digits ≠ [] ∧ ∀ c ∈ digits, '0' ≤ c ∧ c ≤ '9'
  | .literal .binary, w =>
    ∃ mark digits, Signed ('0' :: mark :: digits) w ∧ (mark = 'b' ∨ mark = 'B') ∧ digits ≠ [] ∧
      ∀ c ∈ digits, c = '0' ∨ c = '1'
  | .literal .hexadecimal, w =>
    ∃ mark digits, Signed ('0' :: mark :: digits) w ∧ (mark = 'x' ∨ mark = 'X') ∧ digits ≠ [] ∧
      ∀ c ∈ digits, ('0' ≤ c ∧ c ≤ '9') ∨ ('a' ≤ c ∧ c ≤ 'f') ∨ ('A' ≤ c ∧ c ≤ 'F')
  | .identifier, w =>
    ∃ first later, w = first :: later ∧
      (('a' ≤ first ∧ first ≤ 'z') ∨ ('A' ≤ first ∧ first ≤ 'Z') ∨ first = '_') ∧
      ∀ c ∈ later, c = '_' ∨ ('0' ≤ c ∧ c ≤ '9') ∨ ('a' ≤ c ∧ c ≤ 'z') ∨ ('A' ≤ c ∧ c ≤ 'Z')
  | .colon, w => w = [':']
  | .comma, w => w = [',']

namespace Pattern

variable {run test first second : Char → Bool} {w : List Char}

theorem body_nil_iff : Body run [] w ↔ ∀ c ∈ w, run c = true :=
  ⟨fun (.run all) => all, .run⟩

theorem body_cons_iff {tests : List (Char → Bool)} :
    Body run (test :: tests) w ↔ ∃ c cs, w = c :: cs ∧ test c = true ∧ Body run tests cs := by
  constructor
  · rintro (_ | ⟨pass, tail⟩)
    exact ⟨_, _, rfl, pass, tail⟩
  · rintro ⟨c, cs, rfl, pass, tail⟩
    exact .head pass tail

/-- A class and a run of the same class. -/
theorem body_run_iff : Body test [test] w ↔ w ≠ [] ∧ ∀ c ∈ w, test c = true := by
  rw [body_cons_iff]
  constructor
  · rintro ⟨c, cs, rfl, pass, tail⟩
    exact ⟨nofun, List.forall_mem_cons.mpr ⟨pass, body_nil_iff.mp tail⟩⟩
  · rintro ⟨nonempty, all⟩
    obtain ⟨c, cs, rfl⟩ := List.exists_cons_of_ne_nil nonempty
    obtain ⟨pass, tail⟩ := List.forall_mem_cons.mp all
    exact ⟨c, cs, rfl, pass, body_nil_iff.mpr tail⟩

/-- Two characters, then a class and a run of the same class. -/
theorem body_marked_iff : Body test [first, second, test] w ↔
    ∃ c d cs, w = c :: d :: cs ∧ first c = true ∧ second d = true ∧ cs ≠ [] ∧
      ∀ e ∈ cs, test e = true := by
  simp only [@body_cons_iff _ _ _ (_ :: _), ← body_run_iff]
  constructor
  · rintro ⟨c, _, rfl, here, d, cs, rfl, there, tail⟩
    exact ⟨c, d, cs, rfl, here, there, tail⟩
  · rintro ⟨c, d, cs, rfl, here, there, tail⟩
    exact ⟨c, _, rfl, here, d, cs, rfl, there, tail⟩

theorem matches_unsigned_iff {head : List (Char → Bool)} :
    Matches ⟨false, head, run⟩ w ↔ Body run head w := by
  constructor
  · rintro (body | ⟨⟨⟩, _⟩)
    exact body
  · intro body
    exact .plain body

theorem matches_signed_iff {head : List (Char → Bool)} :
    Matches ⟨true, head, run⟩ w ↔ ∃ text, Signed text w ∧ Body run head text := by
  constructor
  · rintro (body | ⟨_, body⟩)
    · exact ⟨w, .inl rfl, body⟩
    · exact ⟨_, .inr rfl, body⟩
  · rintro ⟨text, rfl | rfl, body⟩
    · exact .plain body
    · exact .minus rfl body

/-- One character and nothing else. -/
theorem matches_single_iff {c : Char} :
    Matches ⟨false, [(· == c)], fun _ => false⟩ w ↔ w = [c] := by
  rw [matches_unsigned_iff, body_cons_iff]
  constructor
  · rintro ⟨d, cs, rfl, pass, tail⟩
    rw [beq_iff_eq.mp pass, List.eq_nil_iff_forall_not_mem.mpr fun e he =>
      Bool.false_ne_true (body_nil_iff.mp tail e he)]
  · rintro rfl
    exact ⟨c, [], rfl, beq_self_eq_true c, .run nofun⟩

end Pattern

/-! ### Classes of characters -/

theorem le_iff_toNat {c d : Char} : c ≤ d ↔ c.toNat ≤ d.toNat := UInt32.le_iff_toNat_le

theorem isSeparator_iff_eq {c : Char} : isSeparator c = true ↔ c = ' ' ∨ c = '\t' ∨ c = '\r' := by
  simp only [isSeparator, Bool.or_eq_true, beq_iff_eq, or_assoc]

theorem isNameStart_iff_range {c : Char} : Text.isNameStart c = true ↔
    ('a' ≤ c ∧ c ≤ 'z') ∨ ('A' ≤ c ∧ c ≤ 'Z') ∨ c = '_' := by
  simp only [Text.isNameStart_iff, le_iff_toNat, Text.eq_iff_toNat, Char.reduceToNat]
  omega

theorem isNamePart_iff_range {c : Char} : Text.isNamePart c = true ↔
    c = '_' ∨ ('0' ≤ c ∧ c ≤ '9') ∨ ('a' ≤ c ∧ c ≤ 'z') ∨ ('A' ≤ c ∧ c ≤ 'Z') := by
  simp only [Text.isNamePart_iff, le_iff_toNat, Text.eq_iff_toNat, Char.reduceToNat]
  omega

theorem isDigit_iff_range {c : Char} :
    Radix.decimal.isDigit c = true ↔ '0' ≤ c ∧ c ≤ '9' := by
  simp only [Radix.isDigit_iff, Radix.base, le_iff_toNat, Char.reduceToNat]
  omega

theorem isBinaryDigit_iff {c : Char} : Radix.binary.isDigit c = true ↔ c = '0' ∨ c = '1' := by
  simp only [Radix.isDigit_iff, Radix.base, Text.eq_iff_toNat, Char.reduceToNat]
  omega

theorem isHexadecimalDigit_iff {c : Char} : Radix.hexadecimal.isDigit c = true ↔
    ('0' ≤ c ∧ c ≤ '9') ∨ ('a' ≤ c ∧ c ≤ 'f') ∨ ('A' ≤ c ∧ c ≤ 'F') := by
  simp only [Radix.isDigit_iff, Radix.base, le_iff_toNat, Char.reduceToNat]
  omega

/-! ### The nine patterns -/

theorem matches_whitespace_iff {w : List Char} :
    Kind.whitespace.pattern.Matches w ↔ Kind.whitespace.Spelled w := by
  simp only [Kind.pattern, Kind.Spelled, Pattern.matches_unsigned_iff, Pattern.body_run_iff,
    isSeparator_iff_eq]

theorem matches_comment_iff {w : List Char} :
    Kind.comment.pattern.Matches w ↔ Kind.comment.Spelled w := by
  simp only [Kind.pattern, Kind.Spelled, Pattern.matches_unsigned_iff, Pattern.body_cons_iff,
    Pattern.body_nil_iff, beq_iff_eq, bne_iff_ne, ← List.forall_mem_ne]
  constructor
  · rintro ⟨_, text, rfl, rfl, line⟩
    exact ⟨text, rfl, fun c hc h => line c hc h.symm⟩
  · rintro ⟨text, rfl, line⟩
    exact ⟨';', text, rfl, rfl, fun c hc h => line c hc h.symm⟩

theorem matches_identifier_iff {w : List Char} :
    Kind.identifier.pattern.Matches w ↔ Kind.identifier.Spelled w := by
  simp only [Kind.pattern, Kind.Spelled, Pattern.matches_unsigned_iff, Pattern.body_cons_iff,
    Pattern.body_nil_iff, isNameStart_iff_range, isNamePart_iff_range]

theorem matches_decimal_iff {w : List Char} :
    (Kind.literal .decimal).pattern.Matches w ↔ (Kind.literal .decimal).Spelled w := by
  simp only [Kind.pattern, Kind.Spelled, Pattern.matches_signed_iff, Pattern.body_run_iff,
    isDigit_iff_range]

/-- A literal behind a mark: perhaps a minus sign, a zero, one of two letters, and digits. -/
theorem matches_marked_iff {radix : Radix} {lower upper : Char} {w : List Char} :
    Pattern.Matches ⟨true, [(· == '0'), fun c => c == lower || c == upper, radix.isDigit],
        radix.isDigit⟩ w ↔
      ∃ mark digits, Signed ('0' :: mark :: digits) w ∧ (mark = lower ∨ mark = upper) ∧
        digits ≠ [] ∧ ∀ c ∈ digits, radix.isDigit c = true := by
  simp only [Pattern.matches_signed_iff, Pattern.body_marked_iff, beq_iff_eq, Bool.or_eq_true]
  constructor
  · rintro ⟨_, signed, _, mark, digits, rfl, rfl, marked, nonempty, all⟩
    exact ⟨mark, digits, signed, marked, nonempty, all⟩
  · rintro ⟨mark, digits, signed, marked, nonempty, all⟩
    exact ⟨_, signed, '0', mark, digits, rfl, rfl, marked, nonempty, all⟩

/-- The patterns match the tokens as they are spelled. -/
theorem Kind.matches_iff_spelled {kind : Kind} {w : List Char} :
    kind.pattern.Matches w ↔ kind.Spelled w := by
  cases kind with
  | whitespace => exact matches_whitespace_iff
  | comment => exact matches_comment_iff
  | newline => exact Pattern.matches_single_iff
  | literal radix =>
    cases radix with
    | decimal => exact matches_decimal_iff
    | binary =>
      simp only [pattern, Spelled, matches_marked_iff, isBinaryDigit_iff]
    | hexadecimal =>
      simp only [pattern, Spelled, matches_marked_iff, isHexadecimalDigit_iff]
  | identifier => exact matches_identifier_iff
  | colon => exact Pattern.matches_single_iff
  | comma => exact Pattern.matches_single_iff

end QuadAsm.Token
