import QuadAsm.Proofs.Token.Pieces

/-! Tokens cut out of their text.

The tokens of a text stand one behind the other (`pairwise_of_read`). Some of them that follow each
other, from the first byte of the first to the last byte of the last, are a text of their own, and
this is read as just these tokens, nearer to the start (`exists_slice`): a token is the longest piece
where it stands, so the longest one too of the less that is left when the text ends behind it, and
what separates tokens is cut off at both ends. -/
namespace QuadAsm.Token

variable {start n : Nat} {cs w more rest : List Char} {lexemes before run after tokens : List Token}
  {kind : Kind} {source : String}

/-! ### One behind the other -/

theorem Lexed.start_le (h : Lexed start cs lexemes rest) {token : Token} (member : token ∈ lexemes) :
    start ≤ token.span.start := by
  obtain ⟨before, after, split⟩ := List.append_of_mem member
  rw [h.placed before token after split]
  exact Nat.le_add_right ..

theorem Lexed.pairwise (h : Lexed start cs lexemes rest) :
    lexemes.Pairwise fun a b => a.span.stop ≤ b.span.start := by
  induction lexemes generalizing start cs with
  | nil => exact .nil
  | cons token lexemes ih =>
    obtain ⟨_, _, _, here, later⟩ := lexed_cons_iff.mp h
    refine .cons (fun other member => ?_) (ih later)
    rw [here]
    exact later.start_le member

/-- No token starts before the one before it stops. -/
theorem pairwise_of_read (h : read source = .ok tokens) :
    tokens.Pairwise fun a b => a.span.stop ≤ b.span.start := by
  obtain ⟨lexemes, lexed, rfl⟩ := lexed_of_read h
  exact lexed.pairwise.filter _

/-- No token is there twice, since none is empty. -/
theorem nodup_of_read (h : read source = .ok tokens) : tokens.Nodup := by
  have apart := pairwise_of_read h
  obtain ⟨lexemes, lexed, rfl⟩ := lexed_of_read h
  refine apart.imp_of_mem fun {a b} member _ le => ?_
  obtain ⟨nonempty, covers⟩ := lexed.covers (List.mem_filter.mp member).1
  have positive := (covers.lies nonempty).nonempty
  rintro rfl
  omega

/-! ### Lexemes alone -/

/-- The longest piece of a text is the longest one of less of it, as long as it is there. -/
theorem IsLongest.of_append (h : IsLongest (cs ++ more) kind w) (fits : w <+: cs) :
    IsLongest cs kind w :=
  ⟨fits, h.spelled, fun other v starts =>
    h.longest other v (starts.trans (List.prefix_append cs more))⟩

/-- Lexemes that follow each other are the lexemes of what they say. -/
theorem Lexed.slice (h : Lexed start cs (before ++ run ++ after) rest) :
    Lexed (start + bytes (chars before)) (chars run) run [] := by
  refine ⟨by rw [List.append_nil], fun first token last split => ?_, fun first token last split => ?_⟩
  · have longest := h.longest (before ++ first) token (last ++ after) (by simp [split])
    rw [← List.cons_append, chars_append, List.append_assoc] at longest
    rw [List.append_nil]
    exact longest.of_append (List.prefix_append ..)
  · rw [h.placed (before ++ first) token (last ++ after) (by simp [split])]
    simp only [chars_append, bytes_append, Nat.add_assoc]

/-- Lexemes further on are those of a text at the start, further on. -/
theorem Lexed.unshift (h : Lexed (start + n) cs lexemes rest) :
    ∃ near, lexemes = near.map (Token.shift n) ∧ Lexed start cs near rest := by
  induction lexemes generalizing start cs with
  | nil => exact ⟨[], rfl, lexed_nil_iff.mpr (lexed_nil_iff.mp h)⟩
  | cons token lexemes ih =>
    obtain ⟨more, split, longest, here, later⟩ := lexed_cons_iff.mp h
    rw [Nat.add_right_comm] at later here
    obtain ⟨near, rfl, lexed⟩ := ih later
    refine ⟨⟨token.kind, token.text, ⟨start, start + bytes token.text.toList⟩⟩ :: near, ?_, ?_⟩
    · rw [List.map_cons, Token.shift, Span.shift, ← here]
    · exact lexed_cons_iff.mpr ⟨more, split, longest, rfl, lexed⟩

/-! ### What is kept, without what is dropped at its ends -/

section
variable {α : Type} {keep : α → Bool} {l kept : List α}

theorem exists_suffix_of_filter {first : α} (h : l.filter keep = kept)
    (starts : kept.head? = some first) :
    ∃ a b, l = a ++ b ∧ b.filter keep = kept ∧ b.head? = some first := by
  obtain ⟨later, rfl⟩ := List.head?_eq_some_iff.mp starts
  obtain ⟨a, b, rfl, _, pass, rest⟩ := List.filter_eq_cons_iff.mp h
  exact ⟨a, first :: b, rfl, by rw [List.filter_cons_of_pos pass, rest], rfl⟩

theorem exists_prefix_of_filter {last : α} (h : l.filter keep = kept)
    (ends : kept.getLast? = some last) :
    ∃ a b, l = a ++ b ∧ a.filter keep = kept ∧ a.getLast? = some last := by
  rw [List.getLast?_eq_head?_reverse] at ends
  have backwards : l.reverse.filter keep = kept.reverse := by rw [List.filter_reverse, h]
  obtain ⟨a, b, split, same, starts⟩ := exists_suffix_of_filter backwards ends
  refine ⟨b.reverse, a.reverse, ?_, ?_, ?_⟩
  · rw [← List.reverse_append, ← split, List.reverse_reverse]
  · rw [List.filter_reverse, same, List.reverse_reverse]
  · rw [List.getLast?_reverse, starts]

/-- What is kept of a list, from the first to the last of some that follow each other. -/
theorem exists_infix_of_filter {front back : List α} {first last : α}
    (h : l.filter keep = front ++ kept ++ back) (starts : kept.head? = some first)
    (ends : kept.getLast? = some last) :
    ∃ a b c, l = a ++ b ++ c ∧ b.filter keep = kept ∧ b.head? = some first ∧
      b.getLast? = some last := by
  obtain ⟨ab, c, rfl, here, _⟩ := List.filter_eq_append_iff.mp h
  obtain ⟨a, b, rfl, _, here⟩ := List.filter_eq_append_iff.mp here
  obtain ⟨x, b, rfl, here, starts⟩ := exists_suffix_of_filter here starts
  obtain ⟨b, y, rfl, here, ends⟩ := exists_prefix_of_filter here ends
  refine ⟨a ++ x, b, y ++ c, by simp, here, ?_, ends⟩
  cases b with
  | nil => cases ends
  | cons => exact starts

end

/-! ### Slices -/

/-- The tokens, of which the first starts and the last stops where the span does, stand in this text,
and it is read as them, nearer to the start. -/
structure Slice (source : String) (tokens : List Token) (span : Span) (text : String)
    (near : List Token) : Prop where
  covers : span.Covers source text
  read : read text = .ok near
  shifted : tokens = near.map (Token.shift span.start)
  inside : ∀ token ∈ tokens, token.span.Lies source span.start span.stop

theorem exists_slice {first last : Token} (h : read source = .ok (before ++ run ++ after))
    (starts : run.head? = some first) (ends : run.getLast? = some last) :
    ∃ text near, Slice source run ⟨first.span.start, last.span.stop⟩ text near := by
  obtain ⟨lexemes, lexed, split⟩ := lexed_of_read h
  obtain ⟨earlier, line, later, rfl, kept, starts, ends⟩ :=
    exists_infix_of_filter split.symm starts ends
  have start : first.span.start = bytes (chars earlier) := by
    obtain ⟨others, rfl⟩ := List.head?_eq_some_iff.mp starts
    rw [lexed.placed earlier first (others ++ later) (by simp), Nat.zero_add]
  have stop : last.span.stop = bytes (chars (earlier ++ line)) := by
    obtain ⟨others, rfl⟩ := List.getLast?_eq_some_iff.mp ends
    rw [lexed.placed (earlier ++ others) last later (by simp), ← List.append_assoc]
    exact Nat.zero_add _
  obtain ⟨near, shifted, alone⟩ := lexed.slice.unshift
  have text : (String.ofList (chars line)).toList = chars line := String.toList_ofList
  rw [start, stop]
  refine ⟨String.ofList (chars line), near.filter (!·.kind.isTrivia), ?_, ?_, ?_, ?_⟩
  · refine ⟨String.ofList (chars earlier), String.ofList (chars later), ?_, ?_⟩
    · rw [← String.toList_inj, lexed.concat]
      simp [chars]
    · rw [chars_append, bytes_append]
      rfl
  · rw [← text] at alone
    exact read_of_lexed alone
  · rw [← kept, shifted, List.filter_map]
    rfl
  · intro token member
    rw [← kept] at member
    exact lexed.lies (List.mem_filter.mp member).1

end QuadAsm.Token
