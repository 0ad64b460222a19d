import QuadAsm.Proofs.Shift
import QuadAsm.Proofs.Statement.Derivation

/-! Statements line by line.

A newline always ends a statement, so what the grammar makes of tokens, a newline and further
tokens is what it makes of the first and then what it makes of the others
(`Derives.remaining_lines`, `Derives.lines`). And a cursor minds where tokens stand for nothing
but to say so: of tokens further on it yields the same, further on (`remaining_shift`). -/
namespace QuadAsm.Cursor

variable {tokens others : List Token} {newline : Token} {n : Nat}

/-! ### Tokens, a newline, and further tokens -/

theorem EndsLine.before_newline (h : EndsLine tokens) (ends : newline.kind = .newline)
    (others : List Token) : EndsLine (tokens ++ newline :: others) := by
  cases tokens with
  | nil =>
    rintro _ ⟨⟩
    exact ends
  | cons token tokens => exact h

/-- Derived tokens are read up to the newline behind them. -/
theorem Derives.remaining_lines {statements : List Statement} (h : Derives tokens statements)
    (ends : newline.kind = .newline) (others : List Token) (last : Span) :
    Cursor.remaining ⟨tokens ++ newline :: others, last⟩ =
      statements.map .ok ++ Cursor.remaining ⟨others, last⟩ := by
  induction h with
  | nil => exact remaining_newline ends others last
  | newline first _ ih =>
    rw [List.cons_append, remaining_newline first, ih]
  | @label name colon tokens _ named declared _ ih =>
    have read : statementOf last (name :: colon :: (tokens ++ newline :: others)) =
        (.ok (.label name.text (name.span.cover colon.span)), tokens ++ newline :: others) := by
      simp [statementOf, named, declared]
    have starts : name.kind ≠ .newline := by simp [named]
    rw [List.cons_append, List.cons_append, remaining_statement starts read, ih]
    rfl
  | @instruction mnemonic given operands tokens _ named arguments line _ ih =>
    have read :=
      statementOf_of_arguments named arguments (line.before_newline ends others) last
    have starts : mnemonic.kind ≠ .newline := by simp [named]
    rw [List.cons_append, List.append_assoc, remaining_statement starts read, ih]
    rfl

/-- No argument of an instruction is a newline. -/
theorem Arguments.newline_free {given operands : List Token} (h : Arguments given operands) :
    ∀ token ∈ given, token.kind ≠ .newline := by
  cases h with
  | none => exact nofun
  | some listed =>
    induction listed with
    | one fits => simpa using (ne_of_isOperand fits).2
    | more fits separates _ ih =>
      have comma_ne := separates ▸ (nofun : Token.Kind.comma ≠ Token.Kind.newline)
      exact List.forall_mem_cons.mpr
        ⟨(ne_of_isOperand fits).2, List.forall_mem_cons.mpr ⟨comma_ne, ih⟩⟩

/-- A newline among the arguments of an instruction and what follows stands in what follows. -/
theorem split_behind_arguments {given operands rest : List Token}
    (arguments : Arguments given operands) (ends : newline.kind = .newline)
    (h : tokens ++ newline :: others = given ++ rest) :
    ∃ more, tokens = given ++ more ∧ rest = more ++ newline :: others := by
  rcases List.append_eq_append_iff.mp h with ⟨more, rfl, behind⟩ | behind
  · cases more with
    | nil => exact ⟨[], by simp, behind.symm⟩
    | cons token more =>
      cases behind
      exact absurd ends (arguments.newline_free newline (by simp))
  · exact behind

/-- Tokens with a newline between them are derived one half after the other. -/
theorem Derives.lines {statements : List Statement}
    (h : Derives (tokens ++ newline :: others) statements) (ends : newline.kind = .newline) :
    ∃ first second, Derives tokens first ∧ Derives others second ∧
      statements = first ++ second := by
  generalize whole : tokens ++ newline :: others = all at h
  induction h generalizing tokens with
  | nil => exact absurd whole (by simp)
  | @newline token rest _ starts later ih =>
    cases tokens with
    | nil =>
      cases whole
      exact ⟨[], _, .nil, later, rfl⟩
    | cons _ tokens =>
      cases whole
      obtain ⟨before, behind, first, second, rfl⟩ := ih rfl
      exact ⟨before, behind, .newline starts first, second, rfl⟩
  | @label name colon rest _ named declared _ ih =>
    obtain _ | ⟨_, _ | ⟨_, tokens⟩⟩ := tokens
    · cases whole
      cases ends.symm.trans named
    · cases whole
      cases ends.symm.trans declared
    · cases whole
      obtain ⟨before, behind, first, second, rfl⟩ := ih rfl
      exact ⟨_ :: before, behind, .label named declared first, second, rfl⟩
  | @instruction mnemonic given operands rest _ named arguments line _ ih =>
    cases tokens with
    | nil =>
      cases whole
      cases ends.symm.trans named
    | cons _ tokens =>
      obtain ⟨rfl, behind⟩ := List.cons.inj whole
      obtain ⟨more, rfl, rfl⟩ := split_behind_arguments arguments ends behind
      obtain ⟨before, behind, first, second, rfl⟩ := ih rfl
      refine ⟨_ :: before, behind, .instruction named arguments ?_ first, second, rfl⟩
      cases more with
      | nil => exact nofun
      | cons token more => exact line

/-! ### Tokens further on -/

/-- The cursor over the tokens so many bytes further on. -/
def shift (n : Nat) (c : Cursor) : Cursor := ⟨c.rest.map (Token.shift n), c.last.shift n⟩

theorem operands_shift (last : Span) (tokens : List Token) :
    operands (last.shift n) (tokens.map (Token.shift n)) =
      (moved n (List.map (Token.shift n)) (operands last tokens).1,
        (operands last tokens).2.map (Token.shift n)) := by
  fun_induction operands last tokens with
  | case1 => rfl
  | case2 token fits => simp [operands, fits, moved]
  | case3 token fits separator rest newline => simp [operands, fits, newline, moved]
  | case4 token fits separator rest newline comma =>
    rename_i ih
    simp only [List.map_cons, operands, Token.kind_shift, fits, comma, ih, if_true]
    cases (operands last rest).1 <;> rfl
  | case5 token fits separator rest newline comma =>
    simp [operands, fits, newline, comma, moved, Diagnostic.shift_at]
  | case6 token rest fits =>
    rw [List.map_cons, operands.eq_def]
    simp [fits, moved, Diagnostic.shift_at]

theorem instruction_shift (mnemonic : Token) (operands : List Token) :
    (instruction mnemonic operands).shift n =
      instruction (mnemonic.shift n) (operands.map (Token.shift n)) := by
  have spans (span : Span) : (operands.foldl (fun span operand => span.cover operand.span)
        span).shift n =
      (operands.map (Token.shift n)).foldl (fun span operand => span.cover operand.span)
        (span.shift n) := by
    induction operands generalizing span with
    | nil => rfl
    | cons operand operands ih =>
      rw [List.foldl_cons, ih, Span.shift_cover]
      rfl
  simp only [instruction, Statement.shift, spans]
  simp [Function.comp_def]

theorem statementOf_shift (last : Span) (tokens : List Token) :
    statementOf (last.shift n) (tokens.map (Token.shift n)) =
      (moved n (Statement.shift n) (statementOf last tokens).1,
        (statementOf last tokens).2.map (Token.shift n)) := by
  obtain _ | ⟨first, _ | ⟨second, others⟩⟩ := tokens
  · rfl
  · by_cases named : first.kind = .identifier
    · simp [statementOf, named, moved, instruction_shift]
    · simp [statementOf, named, moved, Diagnostic.shift_at]
  · have given := operands_shift (n := n) last (second :: others)
    rw [List.map_cons] at given
    by_cases named : first.kind = .identifier
    · by_cases colon : second.kind = .colon
      · simp [statementOf, named, colon, moved, Statement.shift, Span.shift_cover]
      · by_cases newline : second.kind = .newline
        · simp [statementOf, named, newline, moved, instruction_shift]
        · simp only [List.map_cons, statementOf, Token.kind_shift, named, colon, newline, given,
            if_true, if_false]
          cases (operands last (second :: others)).1 <;>
            simp [moved, Except.map, instruction_shift]
    · simp [statementOf, named, moved, Diagnostic.shift_at]

theorem skipNewlines_shift (c : Cursor) : (c.shift n).skipNewlines = c.skipNewlines.shift n := by
  simp [skipNewlines, shift, List.dropWhile_map, Function.comp_def]

theorem next?_shift (c : Cursor) :
    (c.shift n).next? = (c.next?.1.map (moved n (Statement.shift n)), c.next?.2.shift n) := by
  have read : (c.skipNewlines.shift n).statement =
      (moved n (Statement.shift n) c.skipNewlines.statement.1,
        c.skipNewlines.statement.2.shift n) := by
    simp only [Cursor.statement, shift, statementOf_shift]
  have ended : (c.skipNewlines.shift n).atEnd = c.skipNewlines.atEnd := by simp [atEnd, shift]
  rw [next?, next?, skipNewlines_shift, ended, read]
  by_cases h : c.skipNewlines.atEnd = true
  · simp [h]
  · obtain ⟨_ | _, _⟩ := c.skipNewlines.statement <;> simp [h, moved, shift]

/-- A cursor over tokens further on yields the same, further on. -/
theorem remaining_shift (c : Cursor) :
    (c.shift n).remaining = c.remaining.map (moved n (Statement.shift n)) := by
  fun_induction remaining c with
  | case1 c none =>
    refine remaining_of_none ?_
    rw [next?_shift, none]
    rfl
  | case2 c item next ih =>
    have further : (c.shift n).next?.1 = some (moved n (Statement.shift n) item) := by
      rw [next?_shift, next]
      rfl
    rw [remaining_of_some further, next?_shift, ih]
    rfl

/-- Behind derived tokens and a newline a cursor yields what it yields of the others, further on. -/
theorem remaining_ofTokens_lines {statements : List Statement} (h : Derives tokens statements)
    (ends : newline.kind = .newline) (others : List Token) :
    (ofTokens (tokens ++ newline :: others.map (Token.shift n))).remaining =
      statements.map .ok ++ (ofTokens others).remaining.map (moved n (Statement.shift n)) := by
  rw [ofTokens, h.remaining_lines ends, ← remaining_shift]
  cases others with
  | nil => rw [remaining_of_none rfl, remaining_of_none rfl]
  | cons token others =>
    have last : (token :: others).getLast? = some ((token :: others).getLast (by simp)) :=
      List.getLast?_eq_some_getLast _
    have further : (tokens ++ newline :: (token :: others).map (Token.shift n)).getLast? =
        some (((token :: others).getLast (by simp)).shift n) := by
      rw [List.getLast?_append, List.getLast?_cons, List.getLast?_map, last]
      rfl
    rw [further, shift, ofTokens, last]
    rfl

/-! ### Where statements come from -/

theorem operands_suffix (last : Span) (tokens : List Token) :
    (operands last tokens).2 <:+ tokens := by
  fun_induction operands last tokens with
  | case1 => exact List.suffix_rfl
  | case2 token _ => exact List.nil_suffix
  | case3 token _ separator rest _ => exact List.suffix_cons ..
  | case4 token _ separator rest _ _ =>
    rename_i ih
    exact ih.trans ((List.suffix_cons ..).trans (List.suffix_cons ..))
  | case5 token _ separator rest _ _ => exact (List.suffix_cons ..).trans (List.suffix_cons ..)
  | case6 token rest _ => exact List.suffix_cons ..

theorem statementOf_suffix (last : Span) (tokens : List Token) :
    (statementOf last tokens).2 <:+ tokens := by
  fun_cases statementOf last tokens with
  | case1 => exact List.suffix_rfl
  | case2 token _ => exact List.nil_suffix
  | case3 token _ second rest _ => exact (List.suffix_cons ..).trans (List.suffix_cons ..)
  | case4 token _ second rest _ _ => exact List.suffix_cons ..
  | case5 token _ second rest _ _ => exact (operands_suffix ..).trans (List.suffix_cons ..)
  | case6 token rest _ => exact List.suffix_cons ..

/-- What a cursor yields next it reads behind newlines, and it goes on among its tokens. -/
theorem of_next? {c : Cursor} {item : Except Diagnostic Statement} (h : c.next?.1 = some item) :
    item = (statementOf c.last c.skipNewlines.rest).1 ∧ c.next?.2.rest <:+ c.rest ∧
      c.next?.2.last = c.last := by
  have skipped : c.skipNewlines.rest <:+ c.rest := List.dropWhile_suffix _
  have behind := (statementOf_suffix c.last c.skipNewlines.rest).trans skipped
  rw [next?] at h ⊢
  by_cases ended : c.skipNewlines.atEnd = true
  · simp [ended] at h
  · simp only [ended, Bool.false_eq_true, if_false, Cursor.statement] at h ⊢
    have last : c.skipNewlines.last = c.last := rfl
    rw [last] at h ⊢
    cases read : statementOf c.last c.skipNewlines.rest with
    | mk result rest =>
      rw [read] at h behind
      cases result with
      | error d =>
        cases h
        exact ⟨rfl, List.nil_suffix, rfl⟩
      | ok statement =>
        cases h
        exact ⟨rfl, behind, rfl⟩

/-- What a cursor yields next starts with a token that is no newline. -/
theorem starts_of_next? {c : Cursor} {item : Except Diagnostic Statement}
    (h : c.next?.1 = some item) :
    ∃ first more, c.skipNewlines.rest = first :: more ∧ first.kind ≠ .newline := by
  rw [next?] at h
  have head := List.head?_dropWhile_not (·.kind == Token.Kind.newline) c.rest
  cases left : c.skipNewlines.rest with
  | nil => simp [atEnd, left] at h
  | cons first more =>
    have same : c.rest.dropWhile (·.kind == Token.Kind.newline) = first :: more := left
    rw [same] at head
    exact ⟨first, more, rfl, by simpa using head⟩

/-- What a cursor yields it reads somewhere among its tokens, from one that is no newline on. -/
theorem mem_remaining {c : Cursor} {item : Except Diagnostic Statement}
    (h : item ∈ c.remaining) :
    ∃ first more rest, first.kind ≠ .newline ∧ first :: more <:+ c.rest ∧
      statementOf c.last (first :: more) = (item, rest) := by
  fun_induction remaining c with
  | case1 => cases h
  | case2 c first next ih =>
    obtain ⟨here, further, last⟩ := of_next? next
    rcases List.mem_cons.mp h with rfl | h
    · obtain ⟨first, more, left, starts⟩ := starts_of_next? next
      have suffix : c.skipNewlines.rest <:+ c.rest := List.dropWhile_suffix _
      rw [left] at here suffix
      exact ⟨first, more, _, starts, suffix, Prod.ext here.symm rfl⟩
    · obtain ⟨token, more, rest, starts, suffix, there⟩ := ih h
      rw [last] at there
      exact ⟨token, more, rest, starts, suffix.trans further, there⟩

/-! ### Where statements stand -/

section
variable {found : List Token} {mnemonic : Token} {lower upper : Nat}

/-- An instruction starts where the first of its tokens does. -/
theorem le_instruction_start_iff : lower ≤ (instruction mnemonic found).span.start ↔
    ∀ token ∈ mnemonic :: found, lower ≤ token.span.start := by
  show lower ≤ (found.foldl (fun span operand => span.cover operand.span) mnemonic.span).start ↔ _
  rw [List.forall_mem_cons]
  generalize mnemonic.span = span
  induction found generalizing span with
  | nil => simp
  | cons operand found ih =>
    rw [List.foldl_cons, ih, List.forall_mem_cons, Span.cover_start, Nat.le_min, and_assoc]

/-- An instruction stops where the last of its tokens does. -/
theorem instruction_stop_le_iff : (instruction mnemonic found).span.stop ≤ upper ↔
    ∀ token ∈ mnemonic :: found, token.span.stop ≤ upper := by
  show (found.foldl (fun span operand => span.cover operand.span) mnemonic.span).stop ≤ upper ↔ _
  rw [List.forall_mem_cons]
  generalize mnemonic.span = span
  induction found generalizing span with
  | nil => simp
  | cons operand found ih =>
    rw [List.foldl_cons, ih, List.forall_mem_cons, Span.cover_stop, Nat.max_le, and_assoc]

end

/-- Statements of tokens that are written somewhere are written somewhere. -/
theorem stop_pos_of_mem {statement : Statement} (placed : ∀ token ∈ tokens, 0 < token.span.stop)
    (h : .ok statement ∈ (ofTokens tokens).remaining) : 0 < statement.span.stop := by
  obtain ⟨first, more, rest, _, suffix, read⟩ := mem_remaining h
  have positive : 0 < first.span.stop := placed first (suffix.subset (List.mem_cons_self ..))
  rcases derived_of_statementOf read with
    ⟨name, colon, same, _, _, rfl⟩ | ⟨mnemonic, given, operands, same, _, _, _, rfl⟩
  · cases same
    exact Nat.lt_of_lt_of_le positive (Nat.le_max_left _ _)
  · cases same
    exact Nat.lt_of_lt_of_le positive
      (instruction_stop_le_iff.mp (Nat.le_refl _) first List.mem_cons_self)

end QuadAsm.Cursor
