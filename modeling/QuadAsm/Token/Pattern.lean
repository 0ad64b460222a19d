import QuadAsm.Text.Identifier
import QuadAsm.Token

/-! The shapes of tokens.

Every kind of token has one pattern: perhaps a minus sign, then one character from
each class of a fixed list, then a run of characters of one class. `Matches` says
which texts have the pattern, and `munch?` finds the longest prefix that does
(`matches_of_munch?`, `le_munch?_of_matches`). -/
namespace QuadAsm.Token

structure Pattern where
  /-- Whether a minus sign may come first. -/
  signed : Bool
  /-- The classes of the characters every match starts with. -/
  head : List (Char → Bool)
  /-- The class of the characters a match may go on with. -/
  run : Char → Bool

namespace Pattern

/-- One character of each class of `head`, then a run. -/
inductive Body (run : Char → Bool) : List (Char → Bool) → List Char → Prop where
  | run {cs : List Char} (all : ∀ c ∈ cs, run c = true) : Body run [] cs
  | head {test : Char → Bool} {tests : List (Char → Bool)} {c : Char} {cs : List Char}
      (pass : test c = true) (tail : Body run tests cs) : Body run (test :: tests) (c :: cs)

/-- The texts that have the pattern. -/
inductive Matches (p : Pattern) : List Char → Prop where
  | plain {cs : List Char} (body : Body p.run p.head cs) : p.Matches cs
  | minus {cs : List Char} (signed : p.signed = true) (body : Body p.run p.head cs) :
      p.Matches ('-' :: cs)

/-- How far the longest body at the start of a text reaches. -/
def bodyLength? (run : Char → Bool) : List (Char → Bool) → List Char → Option Nat
  | [], cs => some (cs.takeWhile run).length
  | _ :: _, [] => none
  | test :: tests, c :: cs => if test c then (bodyLength? run tests cs).map (· + 1) else none

/-- How far the longest match at the start of a text reaches. -/
def munch? (p : Pattern) (cs : List Char) : Option Nat :=
  if p.signed && cs.head? == some '-' then (bodyLength? p.run p.head cs.tail).map (· + 1)
  else bodyLength? p.run p.head cs

/-- A pattern that cannot match nothing, and whose first class does not take the
minus sign for its own. -/
structure Proper (p : Pattern) : Prop where
  nonempty : p.head ≠ []
  minus_free : ∀ test ∈ p.head.head?, test '-' = false

theorem bodyLength?_le {run : Char → Bool} {tests : List (Char → Bool)} {cs : List Char} {n : Nat}
    (h : bodyLength? run tests cs = some n) : tests.length ≤ n ∧ n ≤ cs.length := by
  fun_induction bodyLength? run tests cs generalizing n with
  | case1 cs =>
    obtain rfl := Option.some.inj h
    exact ⟨Nat.zero_le _, (List.takeWhile_sublist _).length_le⟩
  | case2 => cases h
  | case3 test tests c cs pass ih =>
    obtain ⟨m, hm, rfl⟩ := Option.map_eq_some_iff.mp h
    have := ih hm
    simp only [List.length_cons]
    omega
  | case4 => cases h

theorem munch?_le {p : Pattern} (proper : p.Proper) {cs : List Char} {n : Nat}
    (h : p.munch? cs = some n) : 0 < n ∧ n ≤ cs.length := by
  have positive := List.length_pos_iff.mpr proper.nonempty
  unfold munch? at h
  split at h
  · obtain ⟨m, hm, rfl⟩ := Option.map_eq_some_iff.mp h
    rename_i minus
    obtain ⟨c, rest, rfl⟩ : ∃ c rest, cs = c :: rest := by
      cases cs with
      | nil => simp at minus
      | cons c rest => exact ⟨c, rest, rfl⟩
    have bounds := bodyLength?_le hm
    simp only [List.tail_cons, List.length_cons] at bounds ⊢
    omega
  · have bounds := bodyLength?_le h
    omega

theorem body_of_bodyLength? {run : Char → Bool} {tests : List (Char → Bool)} {cs : List Char}
    {n : Nat} (h : bodyLength? run tests cs = some n) : Body run tests (cs.take n) := by
  fun_induction bodyLength? run tests cs generalizing n with
  | case1 cs =>
    obtain rfl := Option.some.inj h
    refine .run fun c hc => ?_
    rw [← List.prefix_iff_eq_take.mp (List.takeWhile_prefix run)] at hc
    exact List.all_eq_true.mp (List.all_takeWhile (l := cs)) c hc
  | case2 => cases h
  | case3 test tests c cs pass ih =>
    obtain ⟨m, hm, rfl⟩ := Option.map_eq_some_iff.mp h
    exact .head pass (ih hm)
  | case4 => cases h

theorem Body.le_bodyLength? {run : Char → Bool} {tests : List (Char → Bool)} {w : List Char}
    (body : Body run tests w) (rest : List Char) :
    ∃ n, bodyLength? run tests (w ++ rest) = some n ∧ w.length ≤ n := by
  induction body with
  | run all =>
    refine ⟨_, rfl, ?_⟩
    rw [List.takeWhile_append_of_pos all, List.length_append]
    exact Nat.le_add_right _ _
  | head pass _ ih =>
    obtain ⟨n, hn, hle⟩ := ih
    exact ⟨n + 1, by simp [bodyLength?, pass, hn], by simpa using hle⟩

/-- What is munched has the pattern. -/
theorem matches_of_munch? {p : Pattern} {cs : List Char} {n : Nat} (h : p.munch? cs = some n) :
    p.Matches (cs.take n) := by
  unfold munch? at h
  split at h
  · rename_i minus
    obtain ⟨m, hm, rfl⟩ := Option.map_eq_some_iff.mp h
    simp only [Bool.and_eq_true, beq_iff_eq, List.head?_eq_some_iff] at minus
    obtain ⟨signed, rest, rfl⟩ := minus
    exact .minus signed (body_of_bodyLength? hm)
  · exact .plain (body_of_bodyLength? h)

/-- No longer prefix has the pattern. -/
theorem le_munch?_of_matches {p : Pattern} (proper : p.Proper) {w : List Char} (h : p.Matches w)
    (rest : List Char) : ∃ n, p.munch? (w ++ rest) = some n ∧ w.length ≤ n := by
  cases h with
  | plain body =>
    have unsigned : (p.signed && (w ++ rest).head? == some '-') = false := by
      obtain ⟨nonempty, minus_free⟩ := proper
      cases h : p.head with
      | nil => exact absurd h nonempty
      | cons test tests =>
        rw [h] at body
        cases body with
        | head pass _ =>
          have : test '-' = false := minus_free test (by simp [h])
          simp only [Bool.and_eq_false_imp, List.cons_append, List.head?_cons, beq_eq_false_iff_ne]
          rintro - ⟨⟩
          simp [this] at pass
    obtain ⟨n, hn, hle⟩ := body.le_bodyLength? rest
    exact ⟨n, by rw [munch?, if_neg (by rw [unsigned]; decide)]; exact hn, hle⟩
  | minus signed body =>
    obtain ⟨n, hn, hle⟩ := body.le_bodyLength? rest
    exact ⟨n + 1, by simp [munch?, signed, hn], by simpa using hle⟩

end Pattern

/-! ### The patterns of the nine kinds -/

/-- The characters that separate tokens within a line. -/
def isSeparator (c : Char) : Bool := c == ' ' || c == '\t' || c == '\r'

/-- The pattern of the tokens of a kind. -/
def Kind.pattern : Kind → Pattern
  | .whitespace => ⟨false, [isSeparator], isSeparator⟩
  | .comment => ⟨false, [(· == ';')], (· != '\n')⟩
  | .newline => ⟨false, [(· == '\n')], fun _ => false⟩
  | .literal .decimal => ⟨true, [Radix.decimal.isDigit], Radix.decimal.isDigit⟩
  | .literal .binary =>
    ⟨true, [(· == '0'), fun c => c == 'b' || c == 'B', Radix.binary.isDigit], Radix.binary.isDigit⟩
  | .literal .hexadecimal =>
    ⟨true, [(· == '0'), fun c => c == 'x' || c == 'X', Radix.hexadecimal.isDigit],
      Radix.hexadecimal.isDigit⟩
  | .identifier => ⟨false, [Text.isNameStart], Text.isNamePart⟩
  | .colon => ⟨false, [(· == ':')], fun _ => false⟩
  | .comma => ⟨false, [(· == ',')], fun _ => false⟩

theorem Kind.proper (kind : Kind) : kind.pattern.Proper := by
  rcases kind with _ | _ | _ | radix | _ | _ | _
  case literal => cases radix <;> exact ⟨by simp [Kind.pattern], by simp [Kind.pattern] <;> decide⟩
  all_goals exact ⟨by simp [Kind.pattern], by simp [Kind.pattern] <;> decide⟩

end QuadAsm.Token
