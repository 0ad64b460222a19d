import QuadAsm.Proofs.Text.Classes
import QuadAsm.Token.Reading

/-! What the first character of a token says.

The first characters of the kinds are disjoint but for the three radixes of a literal
(`Kind.family_of_starts`), and a literal's mark tells these apart (`Kind.ofMark_of_body`).
Past its first character a token keeps to one class (`Kind.eq_cons_of_matches`), so where the
next character is not of that class a match is the longest there is. -/
namespace QuadAsm.Token

namespace Pattern

/-- The characters a match can start with, and those it can go on with. -/
structure Within (p : Pattern) (first later : Char → Bool) : Prop where
  head : ∀ test ∈ p.head.head?, ∀ c, test c = true → first c = true
  tail : ∀ test ∈ p.head.tail, ∀ c, test c = true → later c = true
  run : ∀ c, p.run c = true → later c = true
  minus : p.signed = true → first '-' = true ∧
    ∀ test ∈ p.head.head?, ∀ c, test c = true → later c = true

/-- A pattern of one class and a run. -/
theorem Within.plain {test run first later : Char → Bool}
    (head : ∀ c, test c = true → first c = true) (past : ∀ c, run c = true → later c = true) :
    Within ⟨false, [test], run⟩ first later := by
  refine ⟨?_, ?_, past, nofun⟩
  · simpa using head
  · simp

/-- A pattern with a sign, the classes of which are all of `later`. -/
theorem Within.signed {test run first later : Char → Bool} {tests : List (Char → Bool)}
    (minus : first '-' = true) (head : ∀ c, test c = true → first c = true)
    (all : ∀ t ∈ test :: tests, ∀ c, t c = true → later c = true)
    (past : ∀ c, run c = true → later c = true) :
    Within ⟨true, test :: tests, run⟩ first later := by
  refine ⟨?_, fun t ht => all t (List.mem_cons_of_mem _ ht), past, fun _ => ⟨minus, ?_⟩⟩
  · simpa using head
  · simpa using all test (List.mem_cons_self ..)

theorem Body.forall_mem {run good : Char → Bool} {tests : List (Char → Bool)} {w : List Char}
    (body : Body run tests w) (head : ∀ test ∈ tests, ∀ c, test c = true → good c = true)
    (later : ∀ c, run c = true → good c = true) : ∀ c ∈ w, good c = true := by
  induction body with
  | run all => exact fun c hc => later c (all c hc)
  | @head test tests c cs pass _ ih =>
    intro d hd
    rcases List.mem_cons.mp hd with rfl | hd
    · exact head test (List.mem_cons_self ..) d pass
    · exact ih (fun t ht => head t (List.mem_cons_of_mem _ ht)) d hd

theorem matches_cons {p : Pattern} {first later : Char → Bool} {w : List Char} (proper : p.Proper)
    (within : p.Within first later) (h : p.Matches w) :
    ∃ c cs, w = c :: cs ∧ first c = true ∧ ∀ d ∈ cs, later d = true := by
  obtain ⟨test, tests, split⟩ := List.exists_cons_of_ne_nil proper.nonempty
  have head := within.head test (by simp [split])
  have tail : ∀ t ∈ tests, ∀ c, t c = true → later c = true := by
    simpa [split] using within.tail
  cases h with
  | plain body =>
    rw [split] at body
    cases body with
    | head pass body => exact ⟨_, _, rfl, head _ pass, body.forall_mem tail within.run⟩
  | minus signed body =>
    obtain ⟨first, later⟩ := within.minus signed
    rw [split] at body
    refine ⟨_, _, rfl, first, body.forall_mem ?_ within.run⟩
    intro t ht
    rcases List.mem_cons.mp ht with rfl | ht
    · exact later t (by simp [split])
    · exact tail t ht

end Pattern

namespace Kind

/-- The characters a token of the kind can start with. -/
def starts : Kind → Char → Bool
  | .whitespace => isSeparator
  | .comment => (· == ';')
  | .newline => (· == '\n')
  | .literal _ => fun c => c == '-' || Radix.decimal.isDigit c
  | .identifier => Text.isNameStart
  | .colon => (· == ':')
  | .comma => (· == ',')

/-- The characters it can go on with. -/
def goesOn : Kind → Char → Bool
  | .whitespace => isSeparator
  | .comment => (· != '\n')
  | .literal _ | .identifier => Text.isNamePart
  | .newline | .colon | .comma => fun _ => false

/-- The kind, with all literals taken together. -/
def family : Kind → Kind
  | .literal _ => .literal .decimal
  | kind => kind

theorem goesOn_family (kind : Kind) : kind.family.goesOn = kind.goesOn := by
  cases kind <;> rfl

theorem starts_iff {kind : Kind} {c : Char} : kind.starts c = true ↔
    match kind with
    | .whitespace => c.toNat = 32 ∨ c.toNat = 9 ∨ c.toNat = 13
    | .comment => c.toNat = 59
    | .newline => c.toNat = 10
    | .literal _ => c.toNat = 45 ∨ (48 ≤ c.toNat ∧ c.toNat ≤ 57)
    | .identifier =>
      (65 ≤ c.toNat ∧ c.toNat ≤ 90) ∨ (97 ≤ c.toNat ∧ c.toNat ≤ 122) ∨ c.toNat = 95
    | .colon => c.toNat = 58
    | .comma => c.toNat = 44 := by
  cases kind with
  | whitespace => exact isSeparator_iff
  | literal radix =>
    simp only [starts, Bool.or_eq_true, beq_iff_eq, Text.eq_iff_toNat, Radix.isDigit_iff,
      Radix.base]
    show c.toNat = 45 ∨ _ ↔ _
    omega
  | identifier => exact Text.isNameStart_iff
  | _ =>
    rw [starts, beq_iff_eq, Text.eq_iff_toNat]
    rfl

/-- Kinds that share a first character are one, or both are literals. -/
theorem family_of_starts {kind other : Kind} {c : Char} (h : kind.starts c = true)
    (h' : other.starts c = true) : kind.family = other.family := by
  rw [starts_iff] at h h'
  cases kind <;> cases other <;> simp only [family, reduceCtorEq] at h h' ⊢ <;> omega

/-- A literal behind a zero and one of two letters keeps to its classes. -/
theorem within_marked {radix : Radix} {lower upper : Char} (low : Text.isNamePart lower = true)
    (high : Text.isNamePart upper = true) :
    Pattern.Within ⟨true, [(· == '0'), fun c => c == lower || c == upper, radix.isDigit],
      radix.isDigit⟩ (starts (.literal radix)) Text.isNamePart := by
  have digit (c : Char) (h : radix.isDigit c = true) : Text.isNamePart c = true :=
    Radix.isNamePart_of_isDigit h
  have zero (c : Char) (h : (c == '0') = true) :
      starts (.literal radix) c = true ∧ Text.isNamePart c = true := by
    obtain rfl := beq_iff_eq.mp h
    exact ⟨rfl, by decide⟩
  have mark (c : Char) (h : (c == lower || c == upper) = true) : Text.isNamePart c = true := by
    rw [Bool.or_eq_true, beq_iff_eq, beq_iff_eq] at h
    rcases h with rfl | rfl
    · exact low
    · exact high
  refine Pattern.Within.signed rfl (fun c h => (zero c h).1) ?_ digit
  simp only [List.forall_mem_cons]
  exact ⟨fun c h => (zero c h).2, mark, digit, nofun⟩

/-- Every kind keeps to its classes. -/
theorem within (kind : Kind) : kind.pattern.Within kind.starts kind.goesOn := by
  cases kind with
  | literal radix =>
    cases radix with
    | decimal =>
      have digit (c : Char) (h : Radix.decimal.isDigit c = true) : Text.isNamePart c = true :=
        Radix.isNamePart_of_isDigit h
      refine Pattern.Within.signed rfl ?_ (List.forall_mem_cons.mpr ⟨digit, nofun⟩) digit
      intro c h
      simp [starts, h]
    | binary => exact within_marked (by decide) (by decide)
    | hexadecimal => exact within_marked (by decide) (by decide)
  | _ => exact Pattern.Within.plain (fun _ h => h) fun _ h => h

/-- A token is a character its kind starts with, then characters its kind goes on with. -/
theorem eq_cons_of_matches {kind : Kind} {w : List Char} (h : kind.pattern.Matches w) :
    ∃ c cs, w = c :: cs ∧ kind.starts c = true ∧ ∀ d ∈ cs, kind.goesOn d = true :=
  Pattern.matches_cons kind.proper kind.within h

/-! ### The radix of a literal -/

/-- A zero and one of two letters that mark a radix are its mark. -/
theorem ofMark_of_marked {radix : Radix} {lower upper : Char} {cs : List Char}
    (low : ∀ digits, Radix.ofMark ('0' :: lower :: digits) = (radix, digits))
    (high : ∀ digits, Radix.ofMark ('0' :: upper :: digits) = (radix, digits))
    (body : Pattern.Body radix.isDigit
      [(· == '0'), fun c => c == lower || c == upper, radix.isDigit] cs) :
    ∃ digits, Radix.ofMark cs = (radix, digits) := by
  obtain _ | ⟨zero, body⟩ := body
  obtain _ | ⟨mark, _⟩ := body
  obtain rfl := beq_iff_eq.mp zero
  rw [Bool.or_eq_true, beq_iff_eq, beq_iff_eq] at mark
  rcases mark with rfl | rfl
  · exact ⟨_, low _⟩
  · exact ⟨_, high _⟩

/-- What stands behind the sign of a literal has its radix for its mark. -/
theorem ofMark_of_body {radix : Radix} {cs : List Char}
    (body : Pattern.Body (literal radix).pattern.run (literal radix).pattern.head cs) :
    ∃ digits, Radix.ofMark cs = (radix, digits) := by
  cases radix with
  | decimal =>
    have all : ∀ c ∈ cs, Radix.decimal.isDigit c = true :=
      body.forall_mem (List.forall_mem_cons.mpr ⟨fun _ h => h, nofun⟩) fun _ h => h
    exact ⟨cs, Radix.ofMark_decimal all⟩
  | binary => exact ofMark_of_marked (fun _ => rfl) (fun _ => rfl) body
  | hexadecimal => exact ofMark_of_marked (fun _ => rfl) (fun _ => rfl) body

/-- A text without the minus sign it may start with. -/
def unsigned : List Char → List Char
  | '-' :: cs => cs
  | cs => cs

theorem body_unsigned {radix : Radix} {w : List Char} (h : (literal radix).pattern.Matches w) :
    Pattern.Body (literal radix).pattern.run (literal radix).pattern.head (unsigned w) := by
  cases h with
  | minus _ body => exact body
  | plain body =>
    have same : unsigned w = w := by
      unfold unsigned
      split
      · obtain ⟨nonempty, minus_free⟩ := (literal radix).proper
        obtain ⟨test, tests, split⟩ := List.exists_cons_of_ne_nil nonempty
        have refused := minus_free test (by simp [split])
        rw [split] at body
        cases body with
        | head pass _ =>
          rw [refused] at pass
          cases pass
      · rfl
    rw [same]
    exact body

/-- No text is a literal of two radixes. -/
theorem radix_unique {radix other : Radix} {w : List Char}
    (h : (literal radix).pattern.Matches w) (h' : (literal other).pattern.Matches w) :
    radix = other := by
  obtain ⟨digits, mark⟩ := ofMark_of_body (body_unsigned h)
  obtain ⟨digits', mark'⟩ := ofMark_of_body (body_unsigned h')
  exact congrArg Prod.fst (mark.symm.trans mark')

/-- No text is a token of two kinds. -/
theorem eq_of_matches {kind other : Kind} {w : List Char} (h : kind.pattern.Matches w)
    (h' : other.pattern.Matches w) : kind = other := by
  obtain ⟨c, cs, rfl, starts, _⟩ := eq_cons_of_matches h
  obtain ⟨_, _, ⟨⟩, starts', _⟩ := eq_cons_of_matches h'
  have family := family_of_starts starts starts'
  cases kind <;> cases other <;> simp only [Kind.family, reduceCtorEq] at family ⊢
  rw [radix_unique h h']

end Kind
end QuadAsm.Token
