import QuadAsm.Proofs.Token.Scan
import QuadAsm.Proofs.Token.Spelling

/-! Reading is maximal munch.

`Lexed` says, without a scanner, how a text falls into lexemes from its start: one behind the
other they make up the text, each is the longest piece spelled like a token where it starts,
and each knows its place. The scanner goes on in this way to the end of the text, or to a place
where no piece is spelled like a token (`exists_lexed`), and which of the two it is settles
what is read (`read_exact`). -/
namespace QuadAsm

/-- The span is where this text stands in a source, from one character's boundary to another's. -/
def Span.Covers (span : Span) (source text : String) : Prop :=
  ∃ before after, source = before ++ text ++ after ∧
    span = ⟨before.utf8ByteSize, before.utf8ByteSize + text.utf8ByteSize⟩

namespace Token

/-! ### The longest piece -/

/-- `w`, a token of this kind, is the longest piece at the start of `cs` that is a token. -/
structure IsLongest (cs : List Char) (kind : Kind) (w : List Char) : Prop where
  starts : w <+: cs
  spelled : kind.Spelled w
  longest : ∀ (other : Kind) v, v <+: cs → other.Spelled v → v.length ≤ w.length

/-- No piece at the start of `cs` is a token. -/
def Stuck (cs : List Char) : Prop := ∀ (kind : Kind) w, w <+: cs → ¬kind.Spelled w

theorem isLongest_of_longest? {cs : List Char} {kind : Kind} {length : Nat}
    (h : longest? cs = some (kind, length)) : IsLongest cs kind (cs.take length) := by
  refine ⟨List.take_prefix .., ?_, ?_⟩
  · exact Kind.matches_iff_spelled.mp (Pattern.matches_of_munch? (munch?_of_longest? h))
  · rintro other v ⟨rest, rfl⟩ spelled
    obtain ⟨_, reach, found, le⟩ := le_longest? (Kind.matches_iff_spelled.mpr spelled) rest
    rw [h] at found
    cases found
    rw [List.length_take, Nat.min_eq_left (longest?_le h).2]
    exact le

/-- No text is spelled like tokens of two kinds. -/
theorem Kind.Spelled.unique {kind other : Kind} {w : List Char} (h : kind.Spelled w)
    (h' : other.Spelled w) : kind = other :=
  Kind.eq_of_matches (Kind.matches_iff_spelled.mpr h) (Kind.matches_iff_spelled.mpr h')

/-- Two longest pieces of one text are one, and of one kind. -/
theorem IsLongest.unique {cs v w : List Char} {kind other : Kind} (h : IsLongest cs kind v)
    (h' : IsLongest cs other w) : kind = other ∧ v = w := by
  have short := h'.longest kind v h.starts h.spelled
  have long := h.longest other w h'.starts h'.spelled
  have same : v = w := (List.prefix_of_prefix_length_le h.starts h'.starts short).eq_of_length_le long
  subst same
  exact ⟨h.spelled.unique h'.spelled, rfl⟩

theorem longest?_eq_some_iff {w rest : List Char} {kind : Kind} :
    longest? (w ++ rest) = some (kind, w.length) ↔ IsLongest (w ++ rest) kind w := by
  constructor
  · intro h
    have longest := isLongest_of_longest? h
    rwa [List.take_left] at longest
  · intro h
    obtain ⟨winner, reach, found, _⟩ := le_longest? (Kind.matches_iff_spelled.mpr h.spelled) rest
    have won := isLongest_of_longest? found
    obtain ⟨rfl, same⟩ := won.unique h
    have bound := (longest?_le found).2
    have length := congrArg List.length same
    rw [List.length_take, Nat.min_eq_left bound] at length
    rw [found, length]

theorem longest?_eq_none_iff {cs : List Char} : longest? cs = none ↔ Stuck cs := by
  constructor
  · rintro h kind w ⟨rest, rfl⟩ spelled
    obtain ⟨_, _, found, _⟩ := le_longest? (Kind.matches_iff_spelled.mpr spelled) rest
    rw [h] at found
    cases found
  · intro stuck
    cases found : longest? cs with
    | none => rfl
    | some winner =>
      have longest := isLongest_of_longest? found
      exact absurd longest.spelled (stuck _ _ longest.starts)

/-! ### The lexemes of a text -/

/-- What the tokens say, one behind the other. -/
def chars (tokens : List Token) : List Char := tokens.flatMap (·.text.toList)

@[simp] theorem chars_nil : chars [] = [] := rfl

@[simp] theorem chars_cons (token : Token) (tokens : List Token) :
    chars (token :: tokens) = token.text.toList ++ chars tokens := rfl

/-- `cs`, standing at byte `start`, falls into these lexemes up to where `rest` begins. -/
structure Lexed (start : Nat) (cs : List Char) (lexemes : List Token) (rest : List Char) :
    Prop where
  concat : cs = chars lexemes ++ rest
  longest : ∀ before token after, lexemes = before ++ token :: after →
    IsLongest (chars (token :: after) ++ rest) token.kind token.text.toList
  placed : ∀ before token after, lexemes = before ++ token :: after →
    token.span = ⟨start + bytes (chars before), start + bytes (chars (before ++ [token]))⟩

theorem lexed_nil_iff {start : Nat} {cs rest : List Char} : Lexed start cs [] rest ↔ cs = rest := by
  constructor
  · exact fun h => h.concat
  · rintro rfl
    exact ⟨rfl, by simp, by simp⟩

/-- The first lexeme, and the others behind it. -/
theorem lexed_cons_iff {start : Nat} {cs rest : List Char} {token : Token}
    {lexemes : List Token} :
    Lexed start cs (token :: lexemes) rest ↔
      ∃ more, cs = token.text.toList ++ more ∧ IsLongest cs token.kind token.text.toList ∧
        token.span = ⟨start, start + bytes token.text.toList⟩ ∧
        Lexed (start + bytes token.text.toList) more lexemes rest := by
  constructor
  · rintro ⟨rfl, longest, placed⟩
    refine ⟨chars lexemes ++ rest, by simp, longest [] token lexemes rfl, ?_, rfl, ?_, ?_⟩
    · simpa using placed [] token lexemes rfl
    · rintro before next after rfl
      exact longest (token :: before) next after rfl
    · rintro before next after rfl
      simpa [Nat.add_assoc] using placed (token :: before) next after rfl
  · rintro ⟨more, rfl, first, here, rfl, longest, placed⟩
    refine ⟨by simp, ?_, ?_⟩
    · intro before next after split
      cases before with
      | nil =>
        cases split
        simpa using first
      | cons _ before =>
        cases split
        exact longest before next after rfl
    · intro before next after split
      cases before with
      | nil =>
        cases split
        simpa using here
      | cons _ before =>
        cases split
        simpa [Nat.add_assoc] using placed before next after rfl

theorem lexed_of_scans {start : Nat} {w rest : List Char} {tokens : List Token}
    (h : Scans rest start w tokens) : Lexed start (w ++ rest) tokens rest := by
  induction h with
  | nil => exact lexed_nil_iff.mpr rfl
  | @token start kind w more tokens longest _ ih =>
    rw [List.append_assoc]
    refine lexed_cons_iff.mpr ⟨more ++ rest, ?_⟩
    dsimp only
    rw [String.toList_ofList]
    exact ⟨rfl, longest?_eq_some_iff.mp longest, rfl, ih⟩

theorem scans_of_lexed {start : Nat} {cs rest : List Char} {tokens : List Token}
    (h : Lexed start cs tokens rest) : Scans rest start (chars tokens) tokens := by
  induction tokens generalizing start cs with
  | nil => exact .nil
  | cons token tokens ih =>
    obtain ⟨more, rfl, longest, here, later⟩ := lexed_cons_iff.mp h
    have whole : token =
        ⟨token.kind, String.ofList token.text.toList, ⟨start, start + bytes token.text.toList⟩⟩ := by
      rw [String.ofList_toList, ← here]
    rw [later.concat] at longest
    have scans := Scans.token (longest?_eq_some_iff.mpr longest) (ih later)
    rwa [← whole] at scans

/-! ### How far the scanner goes -/

/-- A text falls into lexemes to its end, or to a place where it is stuck. -/
theorem exists_scans (start : Nat) (cs : List Char) : ∃ w rest tokens, cs = w ++ rest ∧
    Scans rest start w tokens ∧ (rest = [] ∨ longest? rest = none) := by
  induction length : cs.length using Nat.strongRecOn generalizing start cs with
  | _ n ih =>
    cases found : longest? cs with
    | none => exact ⟨[], cs, [], rfl, .nil, .inr found⟩
    | some winner =>
      obtain ⟨kind, reach⟩ := winner
      obtain ⟨positive, bound⟩ := longest?_le found
      have shorter : (cs.drop reach).length < n := by
        rw [List.length_drop]
        omega
      obtain ⟨w, rest, tokens, split, scans, ended⟩ :=
        ih _ shorter (start + bytes (cs.take reach)) (cs.drop reach) rfl
      have whole : cs.take reach ++ (w ++ rest) = cs := by
        rw [← split, List.take_append_drop]
      have one : longest? (cs.take reach ++ (w ++ rest)) = some (kind, (cs.take reach).length) := by
        rw [whole, found, List.length_take, Nat.min_eq_left bound]
      refine ⟨cs.take reach ++ w, rest, _, ?_, .token one scans, ended⟩
      rw [List.append_assoc, whole]

/-- Where a scanner is stuck the one character there is to blame. -/
theorem scan_of_stuck {start : Nat} {c : Char} {rest : List Char} (found : Array Token)
    (stuck : longest? (c :: rest) = none) :
    scan start (c :: rest) found =
      .error ((Fault.unknownCharacter c).at ⟨start, start + c.utf8Size⟩) := by
  rw [scan]
  split
  · rfl
  · rename_i some
    rw [stuck] at some
    cases some

/-! ### What is read -/

variable {source : String} {lexemes : List Token}

/-- A text falls into lexemes to its end, or to a place where it is stuck. -/
theorem exists_lexed (cs : List Char) :
    (∃ lexemes, Lexed 0 cs lexemes []) ∨
      ∃ lexemes c rest, Lexed 0 cs lexemes (c :: rest) ∧ Stuck (c :: rest) := by
  obtain ⟨w, rest, lexemes, rfl, scans, ended⟩ := exists_scans 0 cs
  have lexed := lexed_of_scans scans
  cases rest with
  | nil => exact .inl ⟨lexemes, lexed⟩
  | cons c rest =>
    obtain ⟨⟨⟩⟩ | stuck := ended
    exact .inr ⟨lexemes, c, rest, lexed, longest?_eq_none_iff.mp stuck⟩

theorem read_of_lexed (h : Lexed 0 source.toList lexemes []) :
    read source = .ok (lexemes.filter (!·.kind.isTrivia)) := by
  have whole : source.toList = chars lexemes := h.concat.trans (List.append_nil _)
  exact read_of_reads ⟨lexemes, whole ▸ scans_of_lexed h, rfl⟩

theorem read_of_stuck {c : Char} {rest : List Char}
    (h : Lexed 0 source.toList lexemes (c :: rest)) (stuck : Stuck (c :: rest)) :
    read source = .error ((Fault.unknownCharacter c).at
      ⟨bytes (chars lexemes), bytes (chars lexemes) + c.utf8Size⟩) := by
  rw [read, h.concat, scan_of_scans (scans_of_lexed h),
    scan_of_stuck _ (longest?_eq_none_iff.mpr stuck), Nat.zero_add]
  rfl

/-- A text that is read falls into lexemes to its end. -/
theorem lexed_of_read {tokens : List Token} (h : read source = .ok tokens) :
    ∃ lexemes, Lexed 0 source.toList lexemes [] ∧
      tokens = lexemes.filter (!·.kind.isTrivia) := by
  rcases exists_lexed source.toList with ⟨lexemes, lexed⟩ | ⟨lexemes, c, rest, lexed, stuck⟩
  · rw [read_of_lexed lexed] at h
    exact ⟨lexemes, lexed, (Except.ok.inj h).symm⟩
  · rw [read_of_stuck lexed stuck] at h
    cases h

/-- A text that is not read is stuck where the diagnostic says. -/
theorem stuck_of_read {d : Diagnostic} (h : read source = .error d) :
    ∃ lexemes c rest, Lexed 0 source.toList lexemes (c :: rest) ∧ Stuck (c :: rest) ∧
      d = (Fault.unknownCharacter c).at
        ⟨bytes (chars lexemes), bytes (chars lexemes) + c.utf8Size⟩ := by
  rcases exists_lexed source.toList with ⟨lexemes, lexed⟩ | ⟨lexemes, c, rest, lexed, stuck⟩
  · rw [read_of_lexed lexed] at h
    cases h
  · rw [read_of_stuck lexed stuck] at h
    exact ⟨lexemes, c, rest, lexed, stuck, (Except.error.inj h).symm⟩

/-- A lexeme's place is where its text stands, and it is not empty. -/
theorem Lexed.covers {rest : List Char} (h : Lexed 0 source.toList lexemes rest) {token : Token}
    (member : token ∈ lexemes) : token.text ≠ "" ∧ token.span.Covers source token.text := by
  obtain ⟨before, after, rfl⟩ := List.append_of_mem member
  have spelled := (h.longest before token after rfl).spelled
  obtain ⟨c, cs, text, _⟩ := Kind.eq_cons_of_matches (Kind.matches_iff_spelled.mpr spelled)
  refine ⟨?_, String.ofList (chars before), String.ofList (chars after ++ rest), ?_, ?_⟩
  · rintro nothing
    rw [nothing] at text
    cases text
  · rw [← String.toList_inj, h.concat]
    simp [chars]
  · rw [h.placed before token after rfl, Nat.zero_add]
    simp [chars, bytes]

/-- A lexeme is a token of its own kind and of no other. -/
theorem Lexed.spelled_iff {start : Nat} {cs rest : List Char} (h : Lexed start cs lexemes rest)
    {token : Token} (member : token ∈ lexemes) (kind : Kind) :
    kind.Spelled token.text.toList ↔ kind = token.kind := by
  obtain ⟨before, after, rfl⟩ := List.append_of_mem member
  have spelled := (h.longest before token after rfl).spelled
  constructor
  · exact fun other => other.unique spelled
  · rintro rfl
    exact spelled

/-- A token of a text is spelled as its kind says. -/
theorem spelled_of_read {tokens : List Token} (h : read source = .ok tokens) {token : Token}
    (member : token ∈ tokens) : token.kind.Spelled token.text.toList := by
  obtain ⟨lexemes, lexed, rfl⟩ := lexed_of_read h
  exact (lexed.spelled_iff (List.mem_filter.mp member).1 token.kind).mpr rfl

/-- **Reading is maximal munch.** A text is read just when it falls into lexemes to its end,
and then its tokens are these without those that only separate others. It is not read just
when the munching comes to a place where no piece is a token, and then the one character there
is to blame, by name and place. Lexemes are not empty, each is a token of one kind, its own, and
stands where its span says. -/
theorem read_exact (source : String) :
    (∀ tokens, read source = .ok tokens ↔
      ∃ lexemes, Lexed 0 source.toList lexemes [] ∧
        tokens = lexemes.filter (!·.kind.isTrivia)) ∧
      (∀ d, read source = .error d ↔
        ∃ lexemes c rest, Lexed 0 source.toList lexemes (c :: rest) ∧ Stuck (c :: rest) ∧
          d = (Fault.unknownCharacter c).at
            ⟨bytes (chars lexemes), bytes (chars lexemes) + c.utf8Size⟩ ∧
          d.kind = .lexer ∧ d.message = s!"Unknown character '{c}'") ∧
      (∀ lexemes rest, Lexed 0 source.toList lexemes rest → ∀ token ∈ lexemes,
        token.text ≠ "" ∧ token.span.Covers source token.text ∧
          ∀ kind : Kind, kind.Spelled token.text.toList ↔ kind = token.kind) := by
  refine ⟨fun tokens => ⟨lexed_of_read, ?_⟩, fun d => ⟨fun h => ?_, ?_⟩, ?_⟩
  · rintro ⟨lexemes, lexed, rfl⟩
    exact read_of_lexed lexed
  · obtain ⟨lexemes, c, rest, lexed, stuck, rfl⟩ := stuck_of_read h
    exact ⟨lexemes, c, rest, lexed, stuck, rfl, rfl, rfl⟩
  · rintro ⟨lexemes, c, rest, lexed, stuck, rfl, _⟩
    exact read_of_stuck lexed stuck
  · intro lexemes rest lexed token member
    obtain ⟨nonempty, covers⟩ := lexed.covers member
    exact ⟨nonempty, covers, lexed.spelled_iff member⟩

end Token

end QuadAsm
