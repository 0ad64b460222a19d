import QuadAsm.Proofs.Statement.Derivation

/-! Where reading stops.

What is refused is refused as early as can be told. Either a token is to blame: those before it
are the start of something that the grammar derives, and with it they are not, so that whatever
follows is refused in the same words. Or the tokens end in a comma, and one more is missing.
`Stops` puts both down, for any way to read tokens; it holds of operands, then of a statement,
then of all that a cursor yields (`remaining_stops`), because tokens that are read before others
leave it as it is (`Stops.prepend`). So the fault is at the first token that nothing derived goes
on with (`refused_at_first_unviable`). -/
namespace QuadAsm.Cursor

/-- The diagnostic says that the token stands where something else was expected. A newline does so
only where an operand was, since elsewhere it ends what is read. -/
inductive Names (token : Token) : Diagnostic → Prop where
  | mnemonic (solid : token.kind ≠ .newline) :
      Names token ((Fault.unexpectedToken .identifier token.kind).at token.span)
  | separator (solid : token.kind ≠ .newline) :
      Names token ((Fault.unexpectedToken .comma token.kind).at token.span)
  | operand : Names token ((Fault.operandExpected token.kind).at token.span)

/-- Something that starts with these tokens is derived. -/
def Viable (tokens : List Token) : Prop := ∃ more statements, Derives (tokens ++ more) statements

/-- Reading the tokens is refused, and what may stand at their start (`Starts`) and what is sure to
be refused (`Refused`) tells where: for the first token that cannot follow those before it, or for
want of one more behind a comma, where anything but an operand would be to blame in its turn. -/
inductive Stops (Starts : List Token → Prop) (Refused : List Token → Diagnostic → Prop)
    (last : Span) : List Token → Diagnostic → Prop where
  | behind {before after : List Token} {token : Token} {d : Diagnostic} (names : Names token d)
      (starts : Starts before) (refused : Refused (before ++ [token]) d) :
      Stops Starts Refused last (before ++ token :: after) d
  | early {tokens : List Token} (ends : ∀ token ∈ tokens.getLast?, token.kind = .comma)
      (starts : Starts tokens)
      (refused : ∀ token, token.kind.isOperand = false →
        Refused (tokens ++ [token]) ((Fault.operandExpected token.kind).at token.span)) :
      Stops Starts Refused last tokens (Fault.outOfTokens.at last)

variable {last : Span} {tokens rest : List Token} {d : Diagnostic}

/-- Behind tokens that are read first, reading stops where it stops without them. Whatever is
refused there starts as the tokens that are read do. -/
theorem Stops.prepend {Starts Starts' : List Token → Prop}
    {Refused Refused' : List Token → Diagnostic → Prop} (h : Stops Starts Refused last tokens d)
    (before : List Token) (ends : tokens = [] → ∀ token ∈ before.getLast?, token.kind = .comma)
    (starts : ∀ {given}, Starts given → Starts' (before ++ given))
    (refused : ∀ {given e}, (∀ first ∈ tokens.head?, first ∈ given.head?) → Refused given e →
      Refused' (before ++ given) e) :
    Stops Starts' Refused' last (before ++ tokens) d := by
  cases h with
  | @behind middle after token d names viable here =>
    have same : ∀ first ∈ (middle ++ token :: after).head?, first ∈ (middle ++ [token]).head? := by
      cases middle <;> simp
    have further := refused same here
    rw [← List.append_assoc] at further ⊢
    exact .behind names (starts viable) further
  | early comma viable here =>
    refine .early ?_ (starts viable) fun token solid => ?_
    · cases tokens with
      | nil => simpa using ends rfl
      | cons first others => simpa [List.getLast?_append, List.getLast?_cons] using comma
    · have same : ∀ first ∈ tokens.head?, first ∈ (tokens ++ [token]).head? := by
        cases tokens <;> simp
      have further := refused same (here token solid)
      rwa [← List.append_assoc] at further

/-! ### Operands -/

/-- Something that starts with these tokens is a list of operands. -/
def Listable (tokens : List Token) : Prop := ∃ more found, Listed (tokens ++ more) found

theorem Listable.nil : Listable [] :=
  ⟨[⟨.identifier, "", .empty⟩], _, .one rfl⟩

theorem operands_stops (h : operands last tokens = (.error d, rest)) :
    Stops Listable (fun given e => ∀ last after, operands last (given ++ after) = (.error e, after))
      last tokens d := by
  fun_induction operands last tokens generalizing rest with
  | case1 =>
    cases h
    refine .early (by simp) .nil fun token solid last after => ?_
    simp [operands.eq_def, solid]
  | case2 => cases h
  | case3 => cases h
  | case4 token fits separator others newline comma =>
    rename_i ih
    refine (ih (error_of_map h)).prepend [token, separator] (fun _ => by simpa using comma) ?_ ?_
    · rintro given ⟨more, found, listed⟩
      exact ⟨more, token :: found, .more fits comma listed⟩
    · intro given e _ refused last after
      simp [operands, fits, comma, refused, Except.map]
  | case5 token fits separator others newline comma =>
    cases h
    show Stops _ _ _ ([token] ++ separator :: others) _
    refine .behind (.separator newline) ⟨[], [token], .one fits⟩ fun last after => ?_
    simp [operands, fits, newline, comma]
  | case6 token others fits =>
    cases h
    show Stops _ _ _ ([] ++ token :: others) _
    refine .behind .operand .nil fun last after => ?_
    simp [operands.eq_def, fits]

/-! ### A statement -/

theorem Viable.nil : Viable [] := ⟨[], [], .nil⟩

/-- A mnemonic and what starts operands start an instruction. -/
theorem Listable.viable {mnemonic : Token} (h : Listable tokens)
    (named : mnemonic.kind = .identifier) : Viable (mnemonic :: tokens) := by
  obtain ⟨more, found, listed⟩ := h
  have derives := Derives.instruction named (.some listed) .nil .nil
  rw [List.append_nil] at derives
  exact ⟨more, _, derives⟩

theorem statementOf_stops {first : Token} (starts : first.kind ≠ .newline)
    (h : statementOf last (first :: tokens) = (.error d, rest)) :
    Stops Viable
      (fun given e => ∀ last after, statementOf last (given ++ after) = (.error e, after))
      last (first :: tokens) d := by
  by_cases named : first.kind = .identifier
  · obtain _ | ⟨second, others⟩ := tokens
    · simp [statementOf, named] at h
    · by_cases colon : second.kind = .colon
      · simp [statementOf, named, colon] at h
      · by_cases newline : second.kind = .newline
        · simp [statementOf, named, newline] at h
        · simp only [statementOf, named, colon, newline, if_true, if_false] at h
          refine (operands_stops (error_of_map h)).prepend [first] (by simp) (·.viable named) ?_
          rintro (_ | ⟨token, given⟩) e same refused last after
          · simp at same
          · -- The second token is the one that is no colon and no newline here.
            obtain rfl : token = second := by simpa using same
            have read := refused last after
            rw [List.cons_append] at read
            simp [statementOf, named, colon, newline, read, Except.map]
  · have unexpected (last : Span) (after : List Token) : statementOf last (first :: after) =
        (.error ((Fault.unexpectedToken .identifier first.kind).at first.span), after) := by
      cases after <;> simp [statementOf, named]
    rw [unexpected] at h
    cases h
    show Stops _ _ _ ([] ++ first :: tokens) _
    exact .behind (.mnemonic starts) .nil unexpected

/-! ### All of them -/

/-- A cursor yields statements and then this fault, whatever follows the tokens. -/
def Refused (tokens : List Token) (d : Diagnostic) : Prop :=
  ∃ statements : List Statement, ∀ last after,
    remaining ⟨tokens ++ after, last⟩ = statements.map .ok ++ [.error d]

/-- The tokens make these statements, and what follows them is read as if it stood alone. -/
structure Settles (before : List Token) (made : List Statement) : Prop where
  derives : ∀ {tokens statements}, Derives tokens statements →
    Derives (before ++ tokens) (made ++ statements)
  remaining : ∀ tokens last, Cursor.remaining ⟨before ++ tokens, last⟩ =
    made.map .ok ++ Cursor.remaining ⟨tokens, last⟩

theorem Settles.newline {token : Token} (newline : token.kind = .newline) :
    Settles [token] [] where
  derives := .newline newline
  remaining := remaining_newline newline

theorem Settles.label {name colon : Token} (named : name.kind = .identifier)
    (declared : colon.kind = .colon) :
    Settles [name, colon] [.label name.text (name.span.cover colon.span)] where
  derives := .label named declared
  remaining tokens last := by
    have read : statementOf last (name :: colon :: tokens) =
        (.ok (.label name.text (name.span.cover colon.span)), tokens) := by
      simp [statementOf, named, declared]
    exact remaining_statement (by simp [named]) read

/-- An instruction is settled with the newline behind it. -/
theorem Settles.instruction {mnemonic newline : Token} {given found : List Token}
    (named : mnemonic.kind = .identifier) (arguments : Arguments given found)
    (ends : newline.kind = .newline) :
    Settles (mnemonic :: (given ++ [newline])) [Cursor.instruction mnemonic found] where
  derives {tokens _} rest := by
    have derives := Derives.instruction named arguments (.cons ends tokens) (.newline ends rest)
    simpa using derives
  remaining tokens last := by
    have starts : mnemonic.kind ≠ .newline := by simp [named]
    have read := statementOf_of_arguments named arguments (.cons ends tokens) last
    rw [List.cons_append, List.append_assoc, List.singleton_append,
      remaining_statement starts read, remaining_newline ends]
    rfl

theorem Stops.settled {before : List Token} {made : List Statement}
    (h : Stops Viable Refused last tokens d) (settles : Settles before made)
    (more : tokens ≠ []) : Stops Viable Refused last (before ++ tokens) d := by
  refine h.prepend before (absurd · more) ?_ ?_
  · rintro given ⟨more, statements, derives⟩
    exact ⟨more, _, by simpa using settles.derives derives⟩
  · rintro given e - ⟨statements, refused⟩
    refine ⟨made ++ statements, fun last after => ?_⟩
    rw [List.append_assoc, settles.remaining, refused, List.map_append, List.append_assoc]

theorem ne_nil_of_mem {item : Except Diagnostic Statement}
    (h : item ∈ remaining ⟨tokens, last⟩) : tokens ≠ [] := by
  rintro rfl
  rw [remaining_of_none rfl] at h
  cases h

/-- A cursor stops at the first token that nothing derived goes on with, or behind a comma. -/
theorem remaining_stops (h : .error d ∈ remaining ⟨tokens, last⟩) :
    Stops Viable Refused last tokens d := by
  -- On the number of tokens: what is read first is settled, and fewer tokens are behind it.
  induction length : tokens.length using Nat.strongRecOn generalizing tokens with
  | _ n ih =>
    subst length
    obtain _ | ⟨token, tokens⟩ := tokens
    · exact absurd rfl (ne_nil_of_mem h)
    by_cases newline : token.kind = .newline
    · rw [remaining_newline newline] at h
      exact (ih _ (Nat.lt_succ_self _) h rfl).settled (.newline newline) (ne_nil_of_mem h)
    have shorter := statementOf_length_lt last (List.cons_ne_nil token tokens)
    cases read : statementOf last (token :: tokens) with
    | mk result rest =>
      rw [read] at shorter
      cases result with
      | error e =>
        rw [remaining_refused newline read] at h
        cases List.mem_singleton.mp h
        refine (statementOf_stops newline read).prepend [] (by simp) id ?_
        rintro (_ | ⟨first, given⟩) e same refused
        · simp at same
        · obtain rfl : first = token := by simpa using same
          refine ⟨[], fun last after => ?_⟩
          exact remaining_refused newline (refused last after)
      | ok statement =>
        rw [remaining_statement newline read] at h
        replace h : .error d ∈ remaining ⟨rest, last⟩ := by simpa using h
        rcases derived_of_statementOf read with
          ⟨name, colon, split, named, declared, -⟩ |
            ⟨mnemonic, given, found, split, named, arguments, ends, -⟩
        · rw [split]
          exact (ih _ shorter h rfl).settled (.label named declared) (ne_nil_of_mem h)
        · obtain _ | ⟨final, rest⟩ := rest
          · exact absurd rfl (ne_nil_of_mem h)
          have line := ends final rfl
          rw [remaining_newline line] at h
          have stops := ih _ (Nat.lt_of_succ_lt shorter) h rfl
          have settled := stops.settled (.instruction named arguments line) (ne_nil_of_mem h)
          rw [split]
          simpa using settled

theorem Refused.append (h : Refused tokens d) (more : List Token) : Refused (tokens ++ more) d := by
  obtain ⟨statements, refused⟩ := h
  exact ⟨statements, fun last after => by rw [List.append_assoc, refused]⟩

/-- Tokens with a fault are refused by the end of their line, whatever follows it. -/
theorem exists_refused_line {newline : Token} (h : .error d ∈ remaining ⟨tokens, last⟩)
    (ends : newline.kind = .newline) : ∃ e, Refused (tokens ++ [newline]) e := by
  cases remaining_stops h with
  | @behind before after token d names starts here =>
    have further := here.append (after ++ [newline])
    exact ⟨d, by simpa using further⟩
  | early _ _ here => exact ⟨_, here newline (by simp [ends, Token.Kind.isOperand])⟩

/-! ### Where the fault is -/

theorem Viable.exists_derivation (h : Viable tokens) :
    ∃ more, Nonempty (Derivation (tokens ++ more)) := by
  obtain ⟨more, _, derives⟩ := h
  exact ⟨more, derives.exists_derivation⟩

theorem Refused.isEmpty (h : Refused tokens d) : IsEmpty (Derivation tokens) := by
  obtain ⟨statements, refused⟩ := h
  refine ⟨fun derivation => ?_⟩
  have yields := refused .empty []
  rw [List.append_nil, derivation.derives.remaining] at yields
  have member : Except.error d ∈ derivation.statements.map Except.ok := by simp [yields]
  simp at member

theorem Names.kind {token : Token} (h : Names token d) : d.kind = .parser := by
  cases h <;> rfl

theorem Names.span {token : Token} (h : Names token d) : d.span? = some token.span := by
  cases h <;> rfl

theorem Names.message {token : Token} (h : Names token d) :
    ∃ wanted ∈ ["token Identifier", "token Comma", "an operand"],
      d.message = s!"Expected {wanted}, but got {token.kind.name}" := by
  cases h with
  | mnemonic => exact ⟨"token Identifier", by simp, rfl⟩
  | separator => exact ⟨"token Comma", by simp, rfl⟩
  | operand => exact ⟨"an operand", by simp, rfl⟩

/-- A diagnostic about a token does not say that they are out. -/
theorem Names.message_ne {token : Token} (h : Names token d) :
    d.message ≠ "Token stream out of bounds" := by
  obtain ⟨wanted, _, named⟩ := h.message
  refine fun early => ?_
  have first := congrArg (fun text => text.toList.head?) (named.symm.trans early)
  simp only [String.toList_append, ToString.toString, List.append_assoc] at first
  exact absurd first (by simp)

/-- **A cursor is refused at the first token that cannot go on.** Of any tokens, what it is refused
for is a fault of the grammar. If it names a token, by kind and place, something derived starts
with the tokens before this one, and nothing derived starts with it too. If instead the tokens have
run out, they end in a comma, at which the fault is; something derived starts with them, and they
are not derived themselves. -/
theorem refused_at_first_unviable (h : .error d ∈ (ofTokens tokens).remaining) :
    d.kind = .parser ∧
      (d.message ≠ "Token stream out of bounds" →
        ∃ before token after, tokens = before ++ token :: after ∧
          (∃ more, Nonempty (Derivation (before ++ more))) ∧
          (∀ more, IsEmpty (Derivation (before ++ token :: more))) ∧
          d.span? = some token.span ∧
          ∃ wanted ∈ ["token Identifier", "token Comma", "an operand"],
            d.message = s!"Expected {wanted}, but got {token.kind.name}") ∧
      (d.message = "Token stream out of bounds" →
        ∃ before comma, tokens = before ++ [comma] ∧ comma.kind = .comma ∧
          (∃ more, Nonempty (Derivation (tokens ++ more))) ∧ IsEmpty (Derivation tokens) ∧
          d.span? = some comma.span) := by
  cases remaining_stops h with
  | @behind before after token d names viable refused =>
    refine ⟨names.kind, fun _ => ?_, fun early => absurd early names.message_ne⟩
    refine ⟨before, token, after, rfl, viable.exists_derivation, fun more => ?_, names.span,
      names.message⟩
    have none := (refused.append more).isEmpty
    rwa [List.append_assoc] at none
  | early ends viable _ =>
    obtain ⟨before, comma, rfl⟩ :=
      (List.eq_nil_or_concat' tokens).resolve_left (ne_nil_of_mem h)
    have underived : IsEmpty (Derivation (before ++ [comma])) := by
      refine ⟨fun derivation => ?_⟩
      obtain ⟨_, ⟨⟩⟩ := (remaining_exact _).1.mpr ⟨derivation⟩ _ h
    refine ⟨rfl, fun named => absurd rfl named, fun _ => ⟨before, comma, rfl, ?_⟩⟩
    exact ⟨ends comma (by simp), viable.exists_derivation, underived, by simp [Fault.at]⟩

/-- Behind `inc ax` no name can stand, and behind `inc ax,` something must. -/
theorem refused_at_first_unviable_operand :
    let inc : Token := ⟨.identifier, "inc", ⟨0, 3⟩⟩
    let ax : Token := ⟨.identifier, "ax", ⟨4, 6⟩⟩
    let comma : Token := ⟨.comma, ",", ⟨6, 7⟩⟩
    let bx : Token := ⟨.identifier, "bx", ⟨7, 9⟩⟩
    (.error (Fault.unexpectedToken .comma .identifier |>.at ⟨7, 9⟩) ∈
        (ofTokens [inc, ax, bx]).remaining ∧
      (∃ more, Nonempty (Derivation ([inc, ax] ++ more))) ∧
      ∀ more, IsEmpty (Derivation (inc :: ax :: bx :: more))) ∧
    .error (Fault.outOfTokens.at ⟨6, 7⟩) ∈ (ofTokens [inc, ax, comma]).remaining ∧
      (∃ more, Nonempty (Derivation ([inc, ax, comma] ++ more))) ∧
      IsEmpty (Derivation [inc, ax, comma]) := by
  intro inc ax comma bx
  have named : .error (Fault.unexpectedToken .comma .identifier |>.at ⟨7, 9⟩) ∈
      (ofTokens [inc, ax, bx]).remaining := by
    rw [ofTokens, remaining_refused (by decide) rfl]
    exact List.mem_singleton_self _
  have early : .error (Fault.outOfTokens.at ⟨6, 7⟩) ∈ (ofTokens [inc, ax, comma]).remaining := by
    rw [ofTokens, remaining_refused (by decide) rfl]
    exact List.mem_singleton_self _
  obtain ⟨before, token, after, whole, viable, refused, place, _⟩ :=
    (refused_at_first_unviable named).2.1 (by decide)
  obtain ⟨_, _, _, _, more, none, _⟩ := (refused_at_first_unviable early).2.2 rfl
  refine ⟨⟨named, ?_⟩, early, more, none⟩
  -- Of the three tokens only the last is where the fault is.
  obtain _ | ⟨_, _ | ⟨_, _ | ⟨_, before⟩⟩⟩ := before
  · cases whole
    cases place
  · cases whole
    cases place
  · cases whole
    exact ⟨viable, refused⟩
  · simp at whole

end QuadAsm.Cursor
