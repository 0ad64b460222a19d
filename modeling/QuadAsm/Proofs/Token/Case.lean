import Mathlib.Data.List.Forall2
import QuadAsm.Proofs.Token.Munch

/-! Tokens in any case.

The kinds of tokens do not tell the two cases of a letter apart (`longest?_toLower`): each class of
characters that their patterns are made of has both or neither. So a text of which some letters are
in the other case falls into tokens of the same kinds at the same places, which say the same but for
the case of letters, and the very same where no letter was changed (`exists_recased`). -/
namespace QuadAsm

/-- The byte is one of the span's. -/
def Span.Holds (span : Span) (byte : Nat) : Prop := span.start ≤ byte ∧ byte < span.stop

/-! ### Letters in the other case -/

namespace Text

variable {free : Nat → Prop} {place : Nat} {cs ds v w : List Char}

/-- The second text is the first one, which starts at this byte, with letters in the other case
where it is free to choose one. -/
inductive Recased (free : Nat → Prop) : Nat → List Char → List Char → Prop where
  | nil {place : Nat} : Recased free place [] []
  | keep {place : Nat} {c : Char} {cs ds : List Char}
      (later : Recased free (place + c.utf8Size) cs ds) : Recased free place (c :: cs) (c :: ds)
  | change {place : Nat} {c d : Char} {cs ds : List Char} (here : free place)
      (letter : d.toLower = c.toLower) (later : Recased free (place + c.utf8Size) cs ds) :
      Recased free place (c :: cs) (d :: ds)

theorem utf8Size_toLower (c : Char) : c.toLower.utf8Size = c.utf8Size := by
  have code := toNat_toLower c
  split at code
  · rw [utf8Size_eq_one_iff.mpr (by omega), utf8Size_eq_one_iff.mpr (by omega)]
  · rw [eq_iff_toNat.mpr code]

/-- A text takes up as many bytes in any case. -/
theorem bytes_map_toLower (cs : List Char) :
    Token.bytes (cs.map Char.toLower) = Token.bytes cs := by
  induction cs with
  | nil => rfl
  | cons c cs ih =>
    rw [List.map_cons, Token.bytes_cons, Token.bytes_cons, utf8Size_toLower, ih]

theorem Recased.letters (h : Recased free place cs ds) :
    ds.map Char.toLower = cs.map Char.toLower := by
  induction h with
  | nil => rfl
  | keep _ ih => rw [List.map_cons, List.map_cons, ih]
  | change _ letter _ ih => rw [List.map_cons, List.map_cons, letter, ih]

/-- What is nowhere free is as it was. -/
theorem Recased.eq_of_fixed (h : Recased free place cs ds)
    (fixed : ∀ byte, place ≤ byte → byte < place + Token.bytes cs → ¬ free byte) : ds = cs := by
  induction h with
  | nil => rfl
  | @keep place c cs ds _ ih =>
    rw [Token.bytes_cons] at fixed
    rw [ih fun byte lower upper => fixed byte (by omega) (by omega)]
  | @change place c d cs ds here _ _ _ =>
    have positive := c.utf8Size_pos
    rw [Token.bytes_cons] at fixed
    exact absurd here (fixed place (by omega) (by omega))

/-- A text of two pieces is recased piece by piece. -/
theorem Recased.append (h : Recased free place (v ++ w) ds) : ∃ v' w', ds = v' ++ w' ∧
    Recased free place v v' ∧ Recased free (place + Token.bytes v) w w' := by
  induction v generalizing place ds with
  | nil => exact ⟨[], ds, rfl, .nil, h⟩
  | cons c v ih =>
    rw [Token.bytes_cons, ← Nat.add_assoc]
    cases h with
    | keep later =>
      obtain ⟨v', w', rfl, first, second⟩ := ih later
      exact ⟨c :: v', w', rfl, .keep first, second⟩
    | @change _ _ d _ _ here letter later =>
      obtain ⟨v', w', rfl, first, second⟩ := ih later
      exact ⟨d :: v', w', rfl, .change here letter first, second⟩

end Text

namespace Token

/-! ### Classes of characters -/

/-- The class has a letter in both cases or in neither. -/
def Caseless (test : Char → Bool) : Prop := ∀ c : Char, test c.toLower = test c

theorem caseless_isSeparator : Caseless isSeparator := by
  intro c
  rw [Bool.eq_iff_iff, isSeparator_iff, isSeparator_iff, Text.toNat_toLower]
  split <;> omega

theorem caseless_isDigit (radix : Radix) : Caseless radix.isDigit := by
  intro c
  have base : radix.base = 2 ∨ radix.base = 10 ∨ radix.base = 16 := by cases radix <;> decide
  rw [Bool.eq_iff_iff, Radix.isDigit_iff, Radix.isDigit_iff, Text.toNat_toLower]
  split <;> omega

/-- What is no letter is alone in its class. -/
theorem caseless_beq {a : Char} (other : a.isAlpha = false) : Caseless (· == a) := by
  intro c
  rw [Bool.eq_false_iff, ne_eq, Text.isAlpha_iff] at other
  rw [Bool.eq_iff_iff, beq_iff_eq, beq_iff_eq, Text.eq_iff_toNat, Text.eq_iff_toNat,
    Text.toNat_toLower]
  split <;> omega

/-- A letter is in its class in both cases. -/
theorem caseless_letter {lower upper : Char} (range : 65 ≤ upper.toNat ∧ upper.toNat ≤ 90)
    (pair : lower.toNat = upper.toNat + 32) : Caseless fun c => c == lower || c == upper := by
  intro c
  rw [Bool.eq_iff_iff]
  simp only [Bool.or_eq_true, beq_iff_eq, Text.eq_iff_toNat, Text.toNat_toLower]
  split <;> omega

theorem caseless_false : Caseless fun _ => false := fun _ => rfl

/-! ### The longest match -/

namespace Pattern

variable {tests : List (Char → Bool)} {run : Char → Bool}

/-- All classes of the pattern have both cases of a letter or neither. -/
structure Caseless (p : Pattern) : Prop where
  head : ∀ test ∈ p.head, Token.Caseless test
  run : Token.Caseless p.run

theorem length_takeWhile_toLower (caseless : Token.Caseless run) (cs : List Char) :
    ((cs.map Char.toLower).takeWhile run).length = (cs.takeWhile run).length := by
  rw [List.takeWhile_map, List.length_map]
  congr 2
  exact funext caseless

theorem bodyLength?_toLower (head : ∀ test ∈ tests, Token.Caseless test)
    (caseless : Token.Caseless run) (cs : List Char) :
    bodyLength? run tests (cs.map Char.toLower) = bodyLength? run tests cs := by
  induction tests generalizing cs with
  | nil => exact congrArg some (length_takeWhile_toLower caseless cs)
  | cons test tests ih =>
    obtain ⟨first, others⟩ := List.forall_mem_cons.mp head
    cases cs with
    | nil => rfl
    | cons c cs => rw [List.map_cons, bodyLength?, bodyLength?, first c, ih others]

theorem munch?_toLower {p : Pattern} (caseless : p.Caseless) (cs : List Char) :
    p.munch? (cs.map Char.toLower) = p.munch? cs := by
  have body (cs : List Char) := bodyLength?_toLower caseless.head caseless.run cs
  -- Whether the minus sign comes first is settled by a class too.
  have minus : ((cs.map Char.toLower).head? == some '-') = (cs.head? == some '-') := by
    cases cs with
    | nil => rfl
    | cons c cs => exact caseless_beq (by decide) c
  rw [munch?, munch?, minus, body, ← List.map_tail, body]

end Pattern

theorem Kind.caseless (kind : Kind) : kind.pattern.Caseless := by
  have single {test : Char → Bool} (caseless : Caseless test) : ∀ each ∈ [test], Caseless each :=
    List.forall_mem_singleton.mpr caseless
  -- A literal behind a mark: a zero, a letter in either case, and digits.
  have marked {radix : Radix} {letter : Char → Bool} (caseless : Caseless letter) :
      ∀ each ∈ [(· == '0'), letter, radix.isDigit], Caseless each :=
    List.forall_mem_cons.mpr ⟨caseless_beq (by decide),
      List.forall_mem_cons.mpr ⟨caseless, single (caseless_isDigit radix)⟩⟩
  cases kind with
  | whitespace => exact ⟨single caseless_isSeparator, caseless_isSeparator⟩
  | comment =>
    refine ⟨single (caseless_beq (by decide)), fun c => ?_⟩
    exact congrArg not (caseless_beq (a := '\n') (by decide) c)
  | newline | colon | comma => exact ⟨single (caseless_beq (by decide)), caseless_false⟩
  | literal radix =>
    cases radix with
    | decimal => exact ⟨single (caseless_isDigit .decimal), caseless_isDigit .decimal⟩
    | binary =>
      have letter : Caseless fun c => c == 'b' || c == 'B' := caseless_letter (by decide) (by decide)
      exact ⟨marked letter, caseless_isDigit .binary⟩
    | hexadecimal =>
      have letter : Caseless fun c => c == 'x' || c == 'X' := caseless_letter (by decide) (by decide)
      exact ⟨marked letter, caseless_isDigit .hexadecimal⟩
  | identifier => exact ⟨single Text.isNameStart_toLower, Text.isNamePart_toLower⟩

theorem longest?_toLower (cs : List Char) : longest? (cs.map Char.toLower) = longest? cs := by
  simp only [longest?, longestOf?, Pattern.munch?_toLower (Kind.caseless _)]

/-! ### Recased tokens -/

variable {free : Nat → Prop} {start : Nat} {cs ds : List Char} {lexemes tokens : List Token}
  {source other : String}

/-- The other token is the same kind at the same place, and says the same but for the case of
letters; it says the very same where no byte of it is free. -/
structure Recased (free : Nat → Prop) (token other : Token) : Prop where
  kind : other.kind = token.kind
  span : other.span = token.span
  letters : other.text.toLower = token.text.toLower
  fixed : (∀ byte, token.span.Holds byte → ¬ free byte) → other.text = token.text

/-- The longest piece is the longest one in any case. -/
theorem IsLongest.recased {kind : Kind} {v w rest : List Char} (h : IsLongest (v ++ cs) kind v)
    (first : w.map Char.toLower = v.map Char.toLower)
    (second : rest.map Char.toLower = cs.map Char.toLower) : IsLongest (w ++ rest) kind w := by
  have length : w.length = v.length := by
    simpa using congrArg List.length first
  apply longest?_eq_some_iff.mp
  rw [← longest?_toLower, List.map_append, first, second, ← List.map_append, longest?_toLower, length]
  exact longest?_eq_some_iff.mpr h

/-- A recased text falls into recased lexemes. -/
theorem Lexed.recased (h : Lexed start cs lexemes []) (same : Text.Recased free start cs ds) :
    ∃ others, Lexed start ds others [] ∧ List.Forall₂ (Recased free) lexemes others := by
  induction lexemes generalizing start cs ds with
  | nil =>
    obtain rfl := lexed_nil_iff.mp h
    cases same
    exact ⟨[], lexed_nil_iff.mpr rfl, .nil⟩
  | cons token lexemes ih =>
    obtain ⟨more, rfl, longest, here, later⟩ := lexed_cons_iff.mp h
    obtain ⟨w, rest, rfl, first, second⟩ := same.append
    obtain ⟨others, lexed, related⟩ := ih later second
    have size : bytes w = bytes token.text.toList := by
      rw [← Text.bytes_map_toLower, first.letters, Text.bytes_map_toLower]
    refine ⟨⟨token.kind, String.ofList w, token.span⟩ :: others, ?_, .cons ?_ related⟩
    · refine lexed_cons_iff.mpr ⟨rest, ?_⟩
      dsimp only
      rw [String.toList_ofList, size]
      exact ⟨rfl, longest.recased first.letters second.letters, here, lexed⟩
    · refine ⟨rfl, rfl, ?_, fun fixed => ?_⟩
      · rw [← String.toList_inj, Text.toList_toLower, Text.toList_toLower, String.toList_ofList,
          first.letters]
      · rw [here] at fixed
        have unchanged := first.eq_of_fixed fun byte lower upper => fixed byte ⟨lower, upper⟩
        rw [unchanged, String.ofList_toList]

/-- A recased text is read as recased tokens. -/
theorem exists_recased (h : read source = .ok tokens)
    (same : Text.Recased free 0 source.toList other.toList) :
    ∃ others, read other = .ok others ∧ List.Forall₂ (Recased free) tokens others := by
  obtain ⟨lexemes, lexed, rfl⟩ := lexed_of_read h
  obtain ⟨others, lexed', related⟩ := lexed.recased same
  refine ⟨_, read_of_lexed lexed', List.rel_filter ?_ related⟩
  intro token other same
  show (!token.kind.isTrivia) = true ↔ (!other.kind.isTrivia) = true
  rw [same.kind]

end Token
end QuadAsm
