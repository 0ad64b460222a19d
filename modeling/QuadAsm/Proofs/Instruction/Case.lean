import QuadAsm.Proofs.Instruction.Checks
import QuadAsm.Proofs.Token.Case

/-! Words in any case.

A literal means the same integer in any case: its mark has a letter in either case, and a digit's
place among all digits is that of its lower case. So a word that is an operand is the same one when
letters of it are in the other case, unless it is a label (`Operand.Recased.word`), and so is an
instruction in words (`Operation.read_recased`). -/
namespace QuadAsm

variable {radix : Radix} {v w mark mark' digits digits' : List Char} {values : List Nat} {n : Nat}
  {i : Int} {text other mnemonic mnemonic' : String} {texts texts' : List String}

/-! ### Literals -/

theorem Text.toLower_eq_iff {c a : Char} (symbol : a.isAlpha = false) : c.toLower = a ↔ c = a := by
  have same := Token.caseless_beq symbol c
  rwa [Bool.eq_iff_iff, beq_iff_eq, beq_iff_eq] at same

/-- A zero and a letter, in lower case, were a zero and the letter in either case. -/
theorem Radix.mark_of_toLower {lower upper : Char} (range : 65 ≤ upper.toNat ∧ upper.toNat ≤ 90)
    (pair : lower.toNat = upper.toNat + 32) (same : mark.map Char.toLower = ['0', lower]) :
    mark = ['0', lower] ∨ mark = ['0', upper] := by
  obtain ⟨zero, _, rfl, first, behind⟩ := List.map_eq_cons_iff.mp same
  obtain ⟨letter, rfl, second⟩ := List.map_eq_singleton_iff.mp behind
  obtain rfl := (Text.toLower_eq_iff (by decide)).mp first
  have either := Token.caseless_letter range pair letter
  simp only [second, beq_self_eq_true, Bool.true_or] at either
  simpa using either.symm

/-- A mark is one in any case. -/
theorem Radix.Mark.recased (marked : radix.Mark mark)
    (same : mark'.map Char.toLower = mark.map Char.toLower) : radix.Mark mark' := by
  cases radix with
  | decimal =>
    cases marked
    exact List.map_eq_nil_iff.mp same
  | binary =>
    have lower : mark.map Char.toLower = ['0', 'b'] := by rcases marked with rfl | rfl <;> decide
    exact Radix.mark_of_toLower (by decide) (by decide) (same.trans lower)
  | hexadecimal =>
    have lower : mark.map Char.toLower = ['0', 'x'] := by rcases marked with rfl | rfl <;> decide
    exact Radix.mark_of_toLower (by decide) (by decide) (same.trans lower)

/-- Digits are worth the same in any case. -/
theorem Radix.forall_digit_recased (worths : List.Forall₂ radix.Digit digits values)
    (same : digits'.map Char.toLower = digits.map Char.toLower) :
    List.Forall₂ radix.Digit digits' values := by
  have lower {digits : List Char} : List.Forall₂ radix.Digit digits values ↔
      List.Forall₂ (fun c value => value < radix.base ∧ "0123456789abcdef".toList[value]? = some c)
        (digits.map Char.toLower) values := by
    rw [List.forall₂_map_left_iff]
    rfl
  rw [lower, same]
  exact lower.mp worths

namespace Numeral

theorem Magnitude.recased (h : Magnitude radix w n)
    (same : v.map Char.toLower = w.map Char.toLower) : Magnitude radix v n := by
  obtain ⟨marked, nonempty, worths⟩ := h
  rw [List.map_append] at same
  obtain ⟨mark', digits', rfl, first, second⟩ := List.map_eq_append_iff.mp same
  refine .intro (marked.recased first) ?_ (Radix.forall_digit_recased worths second)
  rintro rfl
  exact nonempty (List.map_eq_nil_iff.mp second.symm)

/-- A text means the same integer in any case. -/
theorem Means.recased (h : Means w i) (same : v.map Char.toLower = w.map Char.toLower) :
    Means v i := by
  cases h with
  | unsigned digits => exact .unsigned (digits.recased same)
  | plus digits =>
    obtain ⟨sign, _, rfl, first, behind⟩ := List.map_eq_cons_iff.mp same
    obtain rfl := (Text.toLower_eq_iff (by decide)).mp first
    exact .plus (digits.recased behind)
  | minus digits =>
    obtain ⟨sign, _, rfl, first, behind⟩ := List.map_eq_cons_iff.mp same
    obtain rfl := (Text.toLower_eq_iff (by decide)).mp first
    exact .minus (digits.recased behind)

end Numeral

/-! ### Operands -/

/-- A word that is an operand, as it was, or with letters in the other case when it is a register's
name or a literal. -/
inductive Operand.Recased : String → String → Prop where
  | same {text : String} : Recased text text
  | register {text other : String} (letters : other.toLower = text.toLower) (r : Register)
      (named : text.toLower = r.name) : Recased text other
  | literal {text other : String} (letters : other.toLower = text.toLower) {radix : Radix}
      (spelled : (Token.Kind.literal radix).Spelled text.toList) : Recased text other

/-- A word is the same operand when it is recased. -/
theorem Operand.Recased.word {operand : Operand} (h : Recased text other) (word : Word text operand) :
    Word other operand := by
  cases h with
  | same => exact word
  | register letters r named =>
    cases word with
    | register named' => exact .register (letters.trans named')
    | literal means =>
      have unnamed := means.ofName?
      rw [Register.ofName?_eq_some_iff.mpr named] at unnamed
      cases unnamed
    | label _ unnamed => exact absurd named (unnamed r)
  | literal letters spelled =>
    cases word with
    | register named => exact .register (letters.trans named)
    | literal means =>
      refine .literal (means.recased ?_)
      rw [← Text.toList_toLower, ← Text.toList_toLower, letters]
    | label name _ => cases spelled.unique name

theorem Operand.forall_word_recased {given : List Operand}
    (recased : List.Forall₂ Operand.Recased texts texts')
    (words : List.Forall₂ Operand.Word texts given) : List.Forall₂ Operand.Word texts' given := by
  induction recased generalizing given with
  | nil => exact words
  | cons first _ ih =>
    cases words with
    | cons word words => exact .cons (first.word word) (ih words)

/-- The words of an instruction are those of the same one when they are recased. -/
theorem Operation.read_recased {operation : Operation} (letters : mnemonic'.toLower = mnemonic.toLower)
    (recased : List.Forall₂ Operand.Recased texts texts')
    (accepted : read mnemonic texts = .ok operation) : read mnemonic' texts' = .ok operation := by
  obtain ⟨opcode, given, named, words, legal⟩ := read_eq_ok_iff.mp accepted
  have words := Operand.forall_word_recased recased words
  exact read_eq_ok_iff.mpr ⟨opcode, given, letters.trans named, words, legal⟩

end QuadAsm
