import QuadAsm.Proofs.Token.Munch

/-! Tokens written down with a space between each two.

A word is a text together with the kind it is spelled as, of those that are kept. No such kind
goes on with a space, and none starts with a separator (`Word.starts_solid`); so whatever words
stand one behind the other, grammatical or not, a space between two of them ends the first, is a
token of its own, and leaves the second whole (`Word.reads_spaced`). What is read is the words
again, each where it was put (`reads_laid`, `read_spaced`). -/
namespace QuadAsm.Token

/-- A text that is spelled as a token of a kind that is kept. -/
structure Word where
  kind : Kind
  text : String
  kept : kind.isTrivia = false
  spelled : kind.Spelled text.toList

/-- The word as the token that starts at byte `start`. -/
def Word.token (word : Word) (start : Nat) : Token :=
  ⟨word.kind, word.text, ⟨start, start + word.text.utf8ByteSize⟩⟩

/-- The texts of the words, with one space between each two. -/
def spaced (words : List Word) : String := " ".intercalate (words.map Word.text)

/-- What stands in front of the word behind these ones. -/
def ahead (words : List Word) : String := String.join (words.map (·.text ++ " "))

@[simp] theorem ahead_nil : ahead [] = "" := rfl

@[simp] theorem ahead_cons (word : Word) (words : List Word) :
    ahead (word :: words) = word.text ++ " " ++ ahead words := by
  simp [ahead]

theorem spaced_cons_cons (word next : Word) (words : List Word) :
    spaced (word :: next :: words) = word.text ++ " " ++ spaced (next :: words) := by
  simp [spaced]

/-- The first word comes first. -/
theorem exists_spaced_cons (word : Word) (words : List Word) :
    ∃ rest, spaced (word :: words) = word.text ++ rest := by
  cases words with
  | nil => exact ⟨"", by simp [spaced]⟩
  | cons next words =>
    exact ⟨" " ++ spaced (next :: words), by rw [spaced_cons_cons, String.append_assoc]⟩

/-- Behind some words and a space each, the others stand as they would alone. -/
theorem spaced_append_cons (before : List Word) (word : Word) (after : List Word) :
    spaced (before ++ word :: after) = ahead before ++ spaced (word :: after) := by
  induction before with
  | nil => simp
  | cons first before ih =>
    obtain ⟨next, later, more⟩ : ∃ next later, before ++ word :: after = next :: later :=
      List.exists_cons_of_ne_nil (by simp)
    rw [List.cons_append, more, spaced_cons_cons, ← more, ih, ahead_cons]
    simp only [String.append_assoc]

/-! ### What a space does -/

theorem Kind.goesOn_space {kind : Kind} (kept : kind.isTrivia = false) :
    kind.goesOn ' ' = false := by
  cases kind with
  | whitespace | comment => cases kept
  | _ => rfl

/-- A kind that starts with a separator is not kept. -/
theorem Kind.solid_of_starts {kind : Kind} {c : Char} (kept : kind.isTrivia = false)
    (starts : kind.starts c = true) : isSeparator c = false := by
  rw [← Bool.not_eq_true]
  intro separates
  have family : kind.family = Kind.whitespace.family := Kind.family_of_starts starts separates
  cases kind <;> cases family
  cases kept

/-- No word starts with a separator. -/
theorem Word.starts_solid (word : Word) (rest : List Char) :
    ∀ c ∈ (word.text.toList ++ rest).head?, isSeparator c = false := by
  obtain ⟨c, cs, text, starts, _⟩ :=
    Kind.eq_cons_of_matches (Kind.matches_iff_spelled.mpr word.spelled)
  rw [text]
  rintro _ ⟨⟩
  exact Kind.solid_of_starts word.kept starts

theorem reads_space {rest : List Char} (stop : ∀ c ∈ rest.head?, isSeparator c = false)
    (start : Nat) : Reads rest start [' '] [] := by
  have blank : Kind.whitespace.pattern.Matches [' '] := .plain (.head rfl (.run nofun))
  exact ⟨_, .of_matches blank stop start, rfl⟩

/-- A word is read as its token, unless its kind goes on. -/
theorem Word.reads (word : Word) {rest : List Char}
    (stop : ∀ c ∈ rest.head?, word.kind.goesOn c = false) (start : Nat) :
    Reads rest start word.text.toList [word.token start] := by
  refine ⟨_, .of_matches (Kind.matches_iff_spelled.mpr word.spelled) stop start, ?_⟩
  simp [Word.token, word.kept, bytes]

/-- A word and a space are read as the word's token, and what follows is not touched. -/
theorem Word.reads_spaced (word : Word) {rest : List Char}
    (stop : ∀ c ∈ rest.head?, isSeparator c = false) (start : Nat) :
    Reads rest start (word.text.toList ++ [' ']) [word.token start] := by
  have ends : ∀ c ∈ ([' '] ++ rest).head?, word.kind.goesOn c = false := by
    rintro _ ⟨⟩
    exact Kind.goesOn_space word.kept
  exact (word.reads ends start).append (reads_space stop _)

/-! ### The words one behind the other -/

/-- The tokens of words of which the first starts at byte `start`. -/
def laid : Nat → List Word → List Token
  | _, [] => []
  | start, word :: words => word.token start :: laid (start + word.text.utf8ByteSize + 1) words

@[simp] theorem length_laid (start : Nat) (words : List Word) :
    (laid start words).length = words.length := by
  induction words generalizing start with
  | nil => rfl
  | cons word words ih => rw [laid, List.length_cons, ih, List.length_cons]

/-- A word's token starts behind what stands in front of the word. -/
theorem getElem?_laid (start : Nat) (before : List Word) (word : Word) (after : List Word) :
    (laid start (before ++ word :: after))[before.length]? =
      some (word.token (start + (ahead before).utf8ByteSize)) := by
  induction before generalizing start with
  | nil => simp [laid]
  | cons first before ih =>
    have space : " ".utf8ByteSize = 1 := rfl
    rw [List.cons_append, laid, List.length_cons, List.getElem?_cons_succ, ih, ahead_cons,
      String.utf8ByteSize_append, String.utf8ByteSize_append, space]
    simp only [Nat.add_assoc]

theorem reads_laid (start : Nat) (words : List Word) :
    Reads [] start (spaced words).toList (laid start words) := by
  induction words generalizing start with
  | nil => exact .nil
  | cons word words ih =>
    cases words with
    | nil =>
      have alone : spaced [word] = word.text := by simp [spaced]
      rw [alone]
      exact word.reads (by simp) start
    | cons next words =>
      have stop : ∀ c ∈ ((spaced (next :: words)).toList ++ []).head?, isSeparator c = false := by
        obtain ⟨rest, more⟩ := exists_spaced_cons next words
        rw [List.append_nil, more, String.toList_append]
        exact next.starts_solid rest.toList
      have behind : start + bytes (word.text.toList ++ [' ']) =
          start + word.text.utf8ByteSize + 1 := by
        have space : " ".utf8ByteSize = 1 := rfl
        simp [bytes, space, Nat.add_assoc]
      rw [spaced_cons_cons, String.toList_append, String.toList_append]
      refine (word.reads_spaced stop start).append ?_
      rw [behind]
      exact ih _

/-- **Reading undoes writing.** Texts of tokens that are kept, in any order and number, with one
space between each two, are read as just these tokens: as many, in the same order, each of its kind,
with its text, and at the bytes where this text was put. -/
theorem read_spaced (words : List Word) :
    ∃ tokens, read (spaced words) = .ok tokens ∧ tokens.length = words.length ∧
      ∀ before word after, words = before ++ word :: after →
        (∃ rest, spaced words = ahead before ++ word.text ++ rest) ∧
          tokens[before.length]? = some (word.token (ahead before).utf8ByteSize) := by
  refine ⟨laid 0 words, read_of_reads (reads_laid 0 words), length_laid 0 words, ?_⟩
  rintro before word after rfl
  constructor
  · obtain ⟨rest, more⟩ := exists_spaced_cons word after
    exact ⟨rest, by rw [spaced_append_cons, more, String.append_assoc]⟩
  · rw [getElem?_laid, Nat.zero_add]

/-- A word of each kind that is kept. Without the space between them the third and the fourth would
still be two tokens, but the fourth and the fifth would be read as other ones. -/
theorem read_spaced_each : ∃ tokens, read "loop : 0 -0b1 0x1F , \n" = .ok tokens ∧
    tokens.length = 7 ∧ tokens[3]? = some ⟨.literal .binary, "-0b1", ⟨9, 13⟩⟩ ∧
      tokens[4]? = some ⟨.literal .hexadecimal, "0x1F", ⟨14, 18⟩⟩ := by
  let name : Word := ⟨.identifier, "loop", rfl, 'l', ['o', 'o', 'p'], rfl, by simp, by simp⟩
  let colon : Word := ⟨.colon, ":", rfl, rfl⟩
  let zero : Word := ⟨.literal .decimal, "0", rfl, ['0'], .inl rfl, by simp, by simp⟩
  let binary : Word :=
    ⟨.literal .binary, "-0b1", rfl, 'b', ['1'], .inr rfl, by simp, by simp, by simp⟩
  let hexadecimal : Word :=
    ⟨.literal .hexadecimal, "0x1F", rfl, 'x', ['1', 'F'], .inl rfl, by simp, by simp, by simp⟩
  let comma : Word := ⟨.comma, ",", rfl, rfl⟩
  let newline : Word := ⟨.newline, "\n", rfl, rfl⟩
  obtain ⟨tokens, read, length, placed⟩ :=
    read_spaced [name, colon, zero, binary, hexadecimal, comma, newline]
  have fourth := (placed [name, colon, zero] binary [hexadecimal, comma, newline] rfl).2
  have fifth := (placed [name, colon, zero, binary] hexadecimal [comma, newline] rfl).2
  exact ⟨tokens, read, length, fourth, fifth⟩

end QuadAsm.Token
