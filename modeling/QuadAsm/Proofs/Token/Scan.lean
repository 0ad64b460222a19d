import QuadAsm.Proofs.Token.Longest

/-! How a text falls into tokens.

`Scans` says of a piece of text, standing somewhere and followed by something, which tokens
it falls into; what follows matters, because a token ends where a longer one would. Pieces
are put together by `Scans.append`, and the scanner carries out exactly such a piece before
it goes on with what follows (`scan_of_scans`). `Reads` leaves out the tokens that only
separate others, as a program's tokens do. -/
namespace QuadAsm.Token

/-- How many bytes a text takes up. -/
def bytes (cs : List Char) : Nat := (String.ofList cs).utf8ByteSize

@[simp] theorem bytes_nil : bytes [] = 0 := rfl

@[simp] theorem bytes_append (v w : List Char) : bytes (v ++ w) = bytes v + bytes w := by
  simp [bytes]

theorem bytes_cons (c : Char) (cs : List Char) : bytes (c :: cs) = c.utf8Size + bytes cs := by
  simp [bytes]

/-- `w`, standing at byte `start` and followed by `rest`, falls into these tokens. -/
inductive Scans (rest : List Char) : Nat → List Char → List Token → Prop where
  | nil {start : Nat} : Scans rest start [] []
  | token {start : Nat} {kind : Kind} {w more : List Char} {tokens : List Token}
      (longest : longest? (w ++ (more ++ rest)) = some (kind, w.length))
      (later : Scans rest (start + bytes w) more tokens) :
      Scans rest start (w ++ more)
        (⟨kind, String.ofList w, ⟨start, start + bytes w⟩⟩ :: tokens)

theorem Scans.append {start : Nat} {v w rest : List Char} {tokens others : List Token}
    (h : Scans (w ++ rest) start v tokens) (h' : Scans rest (start + bytes v) w others) :
    Scans rest start (v ++ w) (tokens ++ others) := by
  induction h with
  | nil => exact h'
  | @token start kind u more tokens longest _ ih =>
    rw [List.append_assoc]
    refine .token (by rwa [List.append_assoc]) (ih ?_)
    rwa [bytes_append, ← Nat.add_assoc] at h'

/-- The scanner reads one token and goes on behind it. -/
theorem scan_token {start : Nat} {kind : Kind} {w rest : List Char} (found : Array Token)
    (longest : longest? (w ++ rest) = some (kind, w.length)) :
    scan start (w ++ rest) found =
      scan (start + bytes w) rest
        (found.push ⟨kind, String.ofList w, ⟨start, start + bytes w⟩⟩) := by
  cases w with
  | nil => exact absurd (longest?_le longest).1 (Nat.lt_irrefl 0)
  | cons c cs =>
    rw [List.cons_append, scan]
    split
    · rename_i none
      rw [← List.cons_append, longest] at none
      cases none
    · rename_i some
      rw [← List.cons_append, longest] at some
      cases some
      simp only [← List.cons_append, List.take_left, List.drop_left]
      rfl

/-- The scanner reads a piece and goes on behind it. -/
theorem scan_of_scans {start : Nat} {w rest : List Char} {tokens : List Token}
    (h : Scans rest start w tokens) (found : Array Token) :
    scan start (w ++ rest) found = scan (start + bytes w) rest (found ++ tokens.toArray) := by
  induction h generalizing found with
  | nil => simp
  | token longest _ ih =>
    rw [List.append_assoc, scan_token found longest, ih, bytes_append, Nat.add_assoc]
    simp

/-! ### The tokens that are kept -/

/-- `w`, standing at byte `start` and followed by `rest`, is read as these tokens, which are
all but those that only separate others. -/
def Reads (rest : List Char) (start : Nat) (w : List Char) (tokens : List Token) : Prop :=
  ∃ all, Scans rest start w all ∧ all.filter (!·.kind.isTrivia) = tokens

theorem Reads.nil {rest : List Char} {start : Nat} : Reads rest start [] [] := ⟨[], .nil, rfl⟩

theorem Reads.append {start : Nat} {v w rest : List Char} {tokens others : List Token}
    (h : Reads (w ++ rest) start v tokens) (h' : Reads rest (start + bytes v) w others) :
    Reads rest start (v ++ w) (tokens ++ others) := by
  obtain ⟨all, scans, rfl⟩ := h
  obtain ⟨all', scans', rfl⟩ := h'
  exact ⟨all ++ all', scans.append scans', List.filter_append ..⟩

/-- A text of some kind, followed by nothing the kind goes on with, is one token. -/
theorem Scans.of_matches {kind : Kind} {w rest : List Char} (h : kind.pattern.Matches w)
    (stop : ∀ d ∈ rest.head?, kind.goesOn d = false) (start : Nat) :
    Scans rest start w [⟨kind, String.ofList w, ⟨start, start + bytes w⟩⟩] := by
  have one : longest? (w ++ ([] ++ rest)) = some (kind, w.length) := longest?_of_matches h stop
  have alone := Scans.token one (.nil : Scans rest (start + bytes w) [] [])
  rwa [List.append_nil] at alone

/-- A text that is read to its end has these tokens. -/
theorem read_of_reads {source : String} {tokens : List Token}
    (h : Reads [] 0 source.toList tokens) : read source = .ok tokens := by
  obtain ⟨all, scans, rfl⟩ := h
  have scanned := scan_of_scans scans #[]
  rw [List.append_nil] at scanned
  rw [read, scanned, scan]
  simp [Except.map]

/-! ### Wherever a piece stands -/

/-- Wherever it stands, `w` followed by `rest` is read as tokens of this sort. -/
def Yields (rest w : List Char) (sort : List Token → Prop) : Prop :=
  ∀ start, ∃ tokens, Reads rest start w tokens ∧ sort tokens

variable {kind : Kind} {v w rest : List Char} {first second sort : List Token → Prop}

theorem Yields.nil (h : sort []) : Yields rest [] sort := fun _ => ⟨[], .nil, h⟩

theorem Yields.mono (h : Yields rest w first) (weaken : ∀ tokens, first tokens → second tokens) :
    Yields rest w second := by
  intro start
  obtain ⟨tokens, read, here⟩ := h start
  exact ⟨tokens, read, weaken tokens here⟩

theorem Yields.append (h : Yields (w ++ rest) v first) (h' : Yields rest w second)
    (join : ∀ tokens others, first tokens → second others → sort (tokens ++ others)) :
    Yields rest (v ++ w) sort := by
  intro start
  obtain ⟨tokens, read, here⟩ := h start
  obtain ⟨others, read', there⟩ := h' (start + bytes v)
  exact ⟨tokens ++ others, read.append read', join tokens others here there⟩

/-- A text of a kind that is kept is one token more. -/
theorem Yields.token (kept : kind.isTrivia = false) (h : kind.pattern.Matches v)
    (stop : ∀ d ∈ (w ++ rest).head?, kind.goesOn d = false) (later : Yields rest w second)
    (join : ∀ token tokens, token.kind = kind → token.text = String.ofList v → second tokens →
      sort (token :: tokens)) : Yields rest (v ++ w) sort := by
  have one : Yields (w ++ rest) v fun tokens =>
      ∃ token, tokens = [token] ∧ token.kind = kind ∧ token.text = String.ofList v := by
    intro start
    have alone := Scans.of_matches h stop start
    refine ⟨_, ⟨_, alone, rfl⟩, ⟨kind, String.ofList v, ⟨start, start + bytes v⟩⟩, ?_, rfl, rfl⟩
    simp [kept]
  refine one.append later fun tokens others here there => ?_
  obtain ⟨token, rfl, named, written⟩ := here
  exact join token others named written there

/-- A text of a kind that is dropped leaves no trace. -/
theorem Yields.trivia (dropped : kind.isTrivia = true) (h : kind.pattern.Matches v)
    (stop : ∀ d ∈ (w ++ rest).head?, kind.goesOn d = false) (later : Yields rest w sort) :
    Yields rest (v ++ w) sort := by
  have none : Yields (w ++ rest) v (· = []) :=
    fun start => ⟨_, ⟨_, .of_matches h stop start, rfl⟩, by simp [dropped]⟩
  refine none.append later fun tokens others here there => ?_
  rw [here]
  exact there

end QuadAsm.Token
