import Mathlib.Data.List.Forall2
import QuadAsm.Instruction.Reading
import QuadAsm.Proofs.Token.Spelling

/-! What is printed is read back.

An instruction is printed as its mnemonic and the texts of its operands. These read as the same
operation again (`Operation.read_texts`): a literal is the decimal of its value, the least one
too, no literal is a register's name, and a label is read as one just when it is a name that no
register has (`Operand.read_eq_label_iff`). -/
namespace QuadAsm

/-! ### Calls one after the other -/

/-- Where every call is sure to succeed, so are all. -/
theorem mapM_eq_pure {m : Type → Type} [Monad m] [LawfulMonad m] {α β : Type} {f : α → m β}
    {g : α → β} {l : List α} (each : ∀ a ∈ l, f a = pure (g a)) : l.mapM f = pure (l.map g) := by
  induction l with
  | nil => rfl
  | cons a l ih =>
    obtain ⟨first, later⟩ := List.forall_mem_cons.mp each
    rw [List.mapM_cons, first, ih later]
    simp

theorem ok_of_bind {ε α β : Type} {call : Except ε α} {f : α → Except ε β} {b : β}
    (h : (call >>= f) = .ok b) : ∃ a, call = .ok a ∧ f a = .ok b := by
  cases call with
  | error e => cases h
  | ok a => exact ⟨a, rfl, h⟩

/-- Of calls that all succeed, each result is that of one of them. -/
theorem exists_of_mapM {ε α β : Type} {f : α → Except ε β} {l : List α} {results : List β}
    (h : l.mapM f = .ok results) : ∀ b ∈ results, ∃ a ∈ l, f a = .ok b := by
  induction l generalizing results with
  | nil =>
    cases h
    nofun
  | cons a l ih =>
    rw [List.mapM_cons] at h
    obtain ⟨first, called, h⟩ := ok_of_bind h
    obtain ⟨later, calls, h⟩ := ok_of_bind h
    cases h
    refine List.forall_mem_cons.mpr ⟨⟨a, List.mem_cons_self, called⟩, fun b member => ?_⟩
    obtain ⟨a', member', called'⟩ := ih calls b member
    exact ⟨a', List.mem_cons_of_mem a member', called'⟩

theorem error_of_bind {ε α β : Type} {call : Except ε α} {f : α → Except ε β} {e : ε}
    (h : (call >>= f) = .error e) : call = .error e ∨ ∃ a, call = .ok a ∧ f a = .error e := by
  cases call with
  | error e' =>
    cases h
    exact .inl rfl
  | ok a => exact .inr ⟨a, rfl, h⟩

section
variable {ε α β γ : Type} {x : Except ε α} {y : Except ε β} {e : ε}

/-- A call of which the result is only used cannot be refused for anything else. -/
theorem error_of_first {f : α → β} (h : (x >>= fun a => .ok (f a)) = .error e) : x = .error e := by
  rcases error_of_bind h with refused | ⟨_, _, h⟩
  · exact refused
  · cases h

/-- Two calls of which the results are only used are refused for one of them. -/
theorem error_of_both {f : α → β → γ} (h : (x >>= fun a => y >>= fun b => .ok (f a b)) = .error e) :
    x = .error e ∨ y = .error e := by
  rcases error_of_bind h with refused | ⟨_, _, h⟩
  · exact .inl refused
  · exact .inr (error_of_first h)

end

theorem bind_eq_ok_iff {ε α β : Type} {call : Except ε α} {f : α → Except ε β} {b : β} :
    (call >>= f) = .ok b ↔ ∃ a, call = .ok a ∧ f a = .ok b := by
  refine ⟨ok_of_bind, ?_⟩
  rintro ⟨a, rfl, called⟩
  exact called

theorem bind_eq_error_iff {ε α β : Type} {call : Except ε α} {f : α → Except ε β} {e : ε} :
    (call >>= f) = .error e ↔ call = .error e ∨ ∃ a, call = .ok a ∧ f a = .error e := by
  refine ⟨error_of_bind, ?_⟩
  rintro (rfl | ⟨a, rfl, called⟩)
  · rfl
  · exact called

/-- Calls all succeed just when each does, with its result in the same place. -/
theorem mapM_eq_ok_iff {ε α β : Type} {f : α → Except ε β} {l : List α} {results : List β} :
    l.mapM f = .ok results ↔ List.Forall₂ (fun a b => f a = .ok b) l results := by
  induction l generalizing results with
  | nil =>
    rw [List.forall₂_nil_left_iff]
    exact ⟨fun h => (Except.ok.inj h).symm, fun h => h ▸ rfl⟩
  | cons a l ih =>
    simp only [List.mapM_cons, bind_eq_ok_iff, ih, List.forall₂_cons_left_iff]
    constructor
    · rintro ⟨b, called, later, calls, ⟨⟩⟩
      exact ⟨b, later, called, calls, rfl⟩
    · rintro ⟨b, later, called, calls, rfl⟩
      exact ⟨b, called, later, calls, rfl⟩

/-- Calls are refused as the first of them is that does not succeed. -/
theorem mapM_eq_error_iff {ε α β : Type} {f : α → Except ε β} {l : List α} {e : ε} :
    l.mapM f = .error e ↔ ∃ before a after, l = before ++ a :: after ∧
      (∀ x ∈ before, ∃ b, f x = .ok b) ∧ f a = .error e := by
  induction l with
  | nil =>
    constructor
    · exact nofun
    · rintro ⟨before, a, after, split, _⟩
      simp at split
  | cons a l ih =>
    simp only [List.mapM_cons, bind_eq_error_iff, ih]
    constructor
    · rintro (refused | ⟨b, called, ⟨before, a', after, rfl, accepted, refused⟩ | ⟨_, _, ⟨⟩⟩⟩)
      · exact ⟨[], a, l, rfl, nofun, refused⟩
      · have accepted := List.forall_mem_cons.mpr ⟨⟨b, called⟩, accepted⟩
        exact ⟨a :: before, a', after, rfl, accepted, refused⟩
    · rintro ⟨before, a', after, split, accepted, refused⟩
      cases before with
      | nil =>
        cases split
        exact .inl refused
      | cons first before =>
        cases split
        obtain ⟨⟨b, called⟩, accepted⟩ := List.forall_mem_cons.mp accepted
        exact .inr ⟨b, called, .inl ⟨before, a', after, rfl, accepted, refused⟩⟩

/-- Of calls that do not all succeed, one is refused as all are. -/
theorem refused_of_mapM {ε α β : Type} {f : α → Except ε β} {l : List α} {e : ε}
    (h : l.mapM f = .error e) : ∃ a ∈ l, f a = .error e := by
  obtain ⟨before, a, after, rfl, _, refused⟩ := mapM_eq_error_iff.mp h
  exact ⟨a, by simp, refused⟩

/-! ### Literals -/

namespace Numeral

theorem digit?_of_isDigit {c : Char} (h : c.isDigit = true) :
    Radix.decimal.digit? c = some (c.toNat - '0'.toNat) := by
  have range := Text.isDigit_iff.mp h
  have small : c.toNat - 48 < Radix.decimal.base := by
    show _ < 10
    omega
  rw [Radix.digit?, Radix.worth?_eq, if_pos range]
  exact Option.filter_some_pos (decide_eq_true small)

/-- Without a mark, a letter behind a zero, every character has to be a decimal digit. -/
theorem magnitude?_eq {cs : List Char} (nonempty : cs ≠ [])
    (unmarked : ∀ mark later, cs = '0' :: mark :: later → mark.isDigit = true) :
    magnitude? cs = (cs.mapM Radix.decimal.digit?).map (fromDigits .decimal 0) := by
  have decimal : Radix.ofMark cs = (.decimal, cs) := by
    unfold Radix.ofMark
    split
    · exact absurd (unmarked _ _ rfl) (by decide)
    · exact absurd (unmarked _ _ rfl) (by decide)
    · exact absurd (unmarked _ _ rfl) (by decide)
    · exact absurd (unmarked _ _ rfl) (by decide)
    · rfl
  unfold magnitude?
  rw [decimal]
  split
  · rename_i empty
    cases empty
    exact absurd rfl nonempty
  · rename_i split
    cases split
    rfl

theorem magnitude?_of_isDigit {digits : List Char} (all : ∀ c ∈ digits, c.isDigit = true)
    (nonempty : digits ≠ []) : magnitude? digits = some (Nat.ofDigitChars 10 digits 0) := by
  have worths := mapM_eq_pure fun c member => digit?_of_isDigit (all c member)
  rw [magnitude?_eq nonempty fun mark later split => all mark (by simp [split]), worths,
    Nat.ofDigitChars_eq_foldl]
  show some (fromDigits _ _ _) = _
  rw [fromDigits, List.foldl_map]
  rfl

theorem isDigit_of_mem_repr {n : Nat} : ∀ c ∈ n.repr.toList, c.isDigit = true := by
  rw [Nat.repr_eq_ofList_toDigits, String.toList_ofList]
  exact fun c => Nat.isDigit_of_mem_toDigits (by decide) (by decide)

theorem repr_ne_nil (n : Nat) : n.repr.toList ≠ [] := by
  rw [Nat.repr_eq_ofList_toDigits, String.toList_ofList]
  exact Nat.toDigits_ne_nil

theorem magnitude?_repr (n : Nat) : magnitude? n.repr.toList = some n := by
  rw [magnitude?_of_isDigit isDigit_of_mem_repr (repr_ne_nil n), Nat.repr_eq_ofList_toDigits,
    String.toList_ofList, Nat.ofDigitChars_ten_toDigits]

/-- Without a sign a text is worth its magnitude. -/
theorem value?_eq {cs : List Char} (unsigned : ∀ c ∈ cs.head?, c ≠ '-' ∧ c ≠ '+') :
    value? cs = Option.map (fun n : Nat => (n : Int)) (magnitude? cs) := by
  unfold value?
  split
  · exact absurd rfl (unsigned '-' rfl).1
  · exact absurd rfl (unsigned '+' rfl).2
  · cases magnitude? cs <;> rfl

/-- An integer is printed as digits, perhaps behind a minus sign. -/
theorem toList_toString (v : Int) :
    (0 ≤ v ∧ (toString v).toList = v.natAbs.repr.toList) ∨
      (v < 0 ∧ (toString v).toList = '-' :: v.natAbs.repr.toList) := by
  cases v with
  | ofNat n => exact .inl ⟨Int.natCast_nonneg n, rfl⟩
  | negSucc n =>
    refine .inr ⟨Int.negSucc_lt_zero n, ?_⟩
    show ("-" ++ (n + 1).repr).toList = _
    rw [String.toList_append]
    rfl

theorem value?_toString (v : Int) : value? (toString v).toList = some v := by
  rcases toList_toString v with ⟨sign, text⟩ | ⟨sign, text⟩
  · have unsigned : ∀ c ∈ v.natAbs.repr.toList.head?, c ≠ '-' ∧ c ≠ '+' := by
      intro c first
      have digit := isDigit_of_mem_repr c (List.mem_of_mem_head? first)
      constructor <;> rintro rfl <;> exact absurd digit (by decide)
    rw [text, value?_eq unsigned, magnitude?_repr]
    exact congrArg some (Int.natAbs_of_nonneg sign)
  · have negated : -(v.natAbs : Int) = v := by omega
    rw [text, value?, magnitude?_repr]
    exact congrArg some negated

/-- Every word is printed as its decimal. -/
theorem read_toString (w : Int64) : read (toString w) = .ok (some w) := by
  have read : value? (toString w).toList = some w.toInt := value?_toString w.toInt
  rw [Numeral.read, read]
  simp only [word?_toInt]

theorem spelled_toString (w : Int64) :
    (Token.Kind.literal .decimal).Spelled (toString w).toList := by
  refine ⟨w.toInt.natAbs.repr.toList, ?_, repr_ne_nil _, ?_⟩
  · exact (toList_toString w.toInt).imp And.right And.right
  · exact fun c member => Token.isDigit_iff_range.mp (by
      rw [Radix.isDigit, digit?_of_isDigit (isDigit_of_mem_repr c member)]
      rfl)

end Numeral

/-! ### Names -/

theorem Text.isName_iff_spelled {cs : List Char} :
    isName cs = true ↔ Token.Kind.identifier.Spelled cs := by
  cases cs with
  | nil => simp [isName, Token.Kind.Spelled]
  | cons c cs =>
    simp only [isName, Token.Kind.Spelled, Bool.and_eq_true, List.all_eq_true,
      Token.isNameStart_iff_range, Token.isNamePart_iff_range]
    constructor
    · rintro ⟨start, part⟩
      exact ⟨c, cs, rfl, start, part⟩
    · rintro ⟨_, _, ⟨⟩, start, part⟩
      exact ⟨start, part⟩

/-- A text without capitals is its own lower case. -/
theorem Text.toLower_eq_self {text : String} (h : text.toList.all (!·.isUpper) = true) :
    text.toLower = text := by
  have same (c : Char) (member : c ∈ text.toList) : c.toLower = c := by
    have small := List.all_eq_true.mp h c member
    rw [Bool.not_eq_true'] at small
    exact dif_neg (of_decide_eq_false small)
  rw [← String.toList_inj, Text.toList_toLower, List.map_congr_left same, List.map_id']

theorem Register.ofName?_name (r : Register) : ofName? r.name = some r :=
  ofName?_eq_some_iff.mpr (Text.toLower_eq_self (by cases r <;> decide))

theorem Register.isName_name (r : Register) : Text.isName r.name.toList = true := by
  cases r <;> decide

theorem Opcode.isName_name (opcode : Opcode) : Text.isName opcode.name.toList = true := by
  cases opcode with
  | jump condition => cases condition <;> decide
  | _ => decide

theorem Opcode.read_name (opcode : Opcode) : read opcode.name = .ok opcode := by
  have small : opcode.name.toList.all (!·.isUpper) = true := by
    cases opcode with
    | jump condition => cases condition <;> decide
    | _ => decide
  rw [read, ofName?_eq_some_iff.mpr (Text.toLower_eq_self small)]

/-- A name is no literal. -/
theorem Numeral.value?_of_isName {cs : List Char} (h : Text.isName cs = true) :
    value? cs = none := by
  cases cs with
  | nil => cases h
  | cons c cs =>
    have start : Text.isNameStart c = true := (Bool.and_eq_true_iff.mp h).1
    have digit : Radix.decimal.digit? c = none := by
      rw [← Option.not_isSome_iff_eq_none]
      intro digit
      have range := Radix.isDigit_iff.mp digit
      rw [Text.isNameStart_iff] at start
      simp only [Radix.base] at range
      omega
    have magnitude : magnitude? (c :: cs) = none := by
      rw [magnitude?_eq (List.cons_ne_nil c cs), List.mapM_cons, digit]
      · rfl
      · rintro mark later ⟨⟩
        exact absurd start (by decide)
    rw [value?_eq, magnitude, Option.map_none]
    rintro _ ⟨⟩
    constructor <;> rintro rfl <;> exact absurd start (by decide)

/-- No register's name starts with a digit or a sign. -/
theorem Register.ofName?_eq_none {text : String} {c : Char} {cs : List Char}
    (split : text.toList = c :: cs) (first : c.isAlpha = false) : ofName? text = none := by
  rw [← Option.not_isSome_iff_eq_none, Option.isSome_iff_exists]
  rintro ⟨r, named⟩
  have capital : c.isUpper = false := (Bool.or_eq_false_iff.mp first).1
  have lower := congrArg String.toList (ofName?_eq_some_iff.mp named)
  rw [Text.toList_toLower, split, List.map_cons,
    show c.toLower = c from dif_neg (of_decide_eq_false capital)] at lower
  have letters : r.name.toList.all Char.isAlpha = true := by cases r <;> decide
  have alpha := List.all_eq_true.mp letters c (by rw [← lower]; exact List.mem_cons_self)
  rw [first] at alpha
  cases alpha

/-! ### Operands -/

/-- A label that can be written as an operand: it is a name, and no register has it. -/
def IsTarget (name : String) : Prop :=
  Text.isName name.toList = true ∧ Register.ofName? name = none

namespace Operand

theorem read_register (r : Register) : read r.name = .ok (.register r) := by
  rw [read, Register.ofName?_name]

theorem read_literal (value : Int64) : read (toString value) = .ok (.literal value) := by
  have unnamed : Register.ofName? (toString value) = none := by
    rcases Numeral.toList_toString value.toInt with ⟨-, text⟩ | ⟨-, text⟩
    · obtain ⟨c, cs, split⟩ := List.exists_cons_of_ne_nil (Numeral.repr_ne_nil value.toInt.natAbs)
      have digit := Numeral.isDigit_of_mem_repr c (by rw [split]; exact List.mem_cons_self)
      refine Register.ofName?_eq_none (text.trans split) (Bool.eq_false_iff.mpr fun alpha => ?_)
      rw [Text.isDigit_iff] at digit
      rw [Text.isAlpha_iff] at alpha
      omega
    · exact Register.ofName?_eq_none text (by decide)
  rw [read, unnamed]
  simp only [Numeral.read_toString]

/-- A text is read as a label just when it is one that can be written. -/
theorem read_eq_label_iff {text name : String} :
    read text = .ok (.label name) ↔ text = name ∧ IsTarget name := by
  constructor
  · intro h
    unfold read at h
    split at h
    · cases h
    · rename_i unnamed
      split at h
      · cases h
      · cases h
      · split at h
        · rename_i named
          cases h
          exact ⟨rfl, named, unnamed⟩
        · cases h
  · rintro ⟨rfl, named, unnamed⟩
    have read : Numeral.read text = .ok none := by
      rw [Numeral.read, Numeral.value?_of_isName named]
    rw [Operand.read, unnamed, read]
    simp only [named, if_true]

theorem read_datum (d : Datum) : read d.text = .ok (.datum d) := by
  cases d with
  | register r => exact read_register r
  | literal value => exact read_literal value

end Operand

namespace Operation

/-- The target, if there is one, can be written as an operand. -/
def Writable (operation : Operation) : Prop :=
  ∀ name, operation.target? = some name → IsTarget name

/-- Every operand is a datum or the target. -/
theorem mem_operands {operation : Operation} {operand : Operand}
    (member : operand ∈ operation.operands) :
    (∃ d, operand = .datum d) ∨
      ∃ name, operand = .label name ∧ operation.target? = some name := by
  cases operation with
  | jump condition name => exact .inr ⟨name, List.mem_singleton.mp member, rfl⟩
  | _ =>
    rcases List.mem_cons.mp member with rfl | member
    · exact .inl ⟨_, rfl⟩
    · exact .inl ⟨_, List.mem_singleton.mp member⟩

/-- An operation is what its mnemonic and the texts of its operands are read as. -/
theorem read_texts {operation : Operation} (writable : operation.Writable) :
    read operation.opcode.name (operation.operands.map Operand.text) = .ok operation := by
  have each (operand : Operand) (member : operand ∈ operation.operands) :
      Operand.read operand.text = .ok operand := by
    rcases mem_operands member with ⟨d, rfl⟩ | ⟨name, rfl, target⟩
    · exact Operand.read_datum d
    · exact Operand.read_eq_label_iff.mpr ⟨rfl, writable name target⟩
  rw [read, Opcode.read_name, List.mapM_map,
    mapM_eq_pure (f := Operand.read ∘ Operand.text) (g := id) each, List.map_id]
  exact ofOperands_operands operation

/-- Only a jump has a target, and it is its operand. -/
theorem target_mem_operands {opcode : Opcode} {given : List Operand} {operation : Operation}
    {name : String} (h : ofOperands opcode given = .ok operation)
    (target : operation.target? = some name) : .label name ∈ given := by
  unfold ofOperands at h
  split at h
  -- Two operands are checked, or one, and only a jump's becomes a target.
  case h_1 | h_3 | h_5 | h_6 =>
    obtain ⟨_, _, h⟩ := ok_of_bind h
    obtain ⟨_, _, h⟩ := ok_of_bind h
    cases h
    cases target
  case h_2 | h_4 =>
    obtain ⟨_, _, h⟩ := ok_of_bind h
    cases h
    cases target
  case h_7 condition operand =>
    obtain ⟨label, asked, h⟩ := ok_of_bind h
    cases h
    cases target
    cases operand with
    | datum d => cases asked
    | label name =>
      cases asked
      exact List.mem_singleton_self _
  case h_8 => cases h

/-- What has been read can be written. -/
theorem writable_of_read {mnemonic : String} {texts : List String} {operation : Operation}
    (h : read mnemonic texts = .ok operation) : operation.Writable := by
  obtain ⟨opcode, _, h⟩ := ok_of_bind h
  obtain ⟨given, read, h⟩ := ok_of_bind h
  intro name target
  obtain ⟨text, _, read⟩ := exists_of_mapM read _ (target_mem_operands h target)
  exact (Operand.read_eq_label_iff.mp read).2

end Operation

end QuadAsm
