import QuadAsm.Diagnostic
import QuadAsm.Token.Pattern

/-! From a text to its tokens.

At every position the longest match of any kind is the next token. Where nothing
matches the reading fails, and the one character there is to blame. Scanning keeps
the tokens that only separate others, so that their texts make up the whole text;
`Token.read` drops them. -/
namespace QuadAsm.Token

/-- The longer of a match and perhaps an earlier one, which wins a tie. -/
def longer (best : Option (Kind × Nat)) (kind : Kind) (length : Nat) : Option (Kind × Nat) :=
  match best with
  | none => some (kind, length)
  | some (earlier, reach) => if reach < length then some (kind, length) else some (earlier, reach)

/-- The longest match among these kinds, with its length. -/
def longestOf? (cs : List Char) (kinds : List Kind) (best : Option (Kind × Nat)) :
    Option (Kind × Nat) :=
  kinds.foldl (fun best kind =>
    match kind.pattern.munch? cs with
    | none => best
    | some length => longer best kind length) best

/-- The kind and the length of the token a text starts with. -/
def longest? (cs : List Char) : Option (Kind × Nat) := longestOf? cs Kind.all none

theorem munch?_of_longestOf? {cs : List Char} {kinds : List Kind} {best : Option (Kind × Nat)}
    {kind : Kind} {length : Nat} (h : longestOf? cs kinds best = some (kind, length)) :
    best = some (kind, length) ∨ kind.pattern.munch? cs = some length := by
  induction kinds generalizing best with
  | nil => exact .inl h
  | cons next kinds ih =>
    rw [longestOf?, List.foldl_cons] at h
    rcases ih h with found | munched
    · cases hm : next.pattern.munch? cs with
      | none => exact .inl (by simpa [hm] using found)
      | some reach =>
        simp only [hm, longer] at found
        split at found
        · cases found
          exact .inr hm
        · split at found
          · cases found
            exact .inr hm
          · exact .inl found
    · exact .inr munched

/-- The token a text starts with is one of its kind's matches. -/
theorem munch?_of_longest? {cs : List Char} {kind : Kind} {length : Nat}
    (h : longest? cs = some (kind, length)) : kind.pattern.munch? cs = some length := by
  rcases munch?_of_longestOf? h with absent | munched
  · cases absent
  · exact munched

theorem longest?_le {cs : List Char} {kind : Kind} {length : Nat}
    (h : longest? cs = some (kind, length)) : 0 < length ∧ length ≤ cs.length :=
  Pattern.munch?_le kind.proper (munch?_of_longest? h)

/-- All tokens of a text that starts at byte `start`, after those already `found`. -/
def scan (start : Nat) (cs : List Char) (found : Array Token) : Except Diagnostic (Array Token) :=
  match cs with
  | [] => .ok found
  | c :: rest =>
    match _h : longest? (c :: rest) with
    | none => .error (Fault.unknownCharacter c |>.at ⟨start, start + c.utf8Size⟩)
    | some (kind, length) =>
      let text := String.ofList ((c :: rest).take length)
      let stop := start + text.utf8ByteSize
      scan stop ((c :: rest).drop length) (found.push ⟨kind, text, ⟨start, stop⟩⟩)
termination_by cs.length
decreasing_by
  have := longest?_le _h
  simp only [List.length_drop]
  omega

/-- The tokens of a program text, without those that only separate others. -/
def read (source : String) : Except Diagnostic (List Token) :=
  (scan 0 source.toList #[]).map fun tokens => tokens.toList.filter (!·.kind.isTrivia)

end QuadAsm.Token
