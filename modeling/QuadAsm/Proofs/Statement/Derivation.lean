import Mathlib.Data.List.Chain
import QuadAsm.Proofs.Statement.Grammar

/-! Derivations, and what a cursor makes of any tokens.

A derivation cuts a token list into parts, each of which a rule of the grammar takes: a newline,
a label, an instruction. Only newlines make no statement. No list has two derivations
(`Derivation.unique`): reading a statement settles where it ends, and its tokens settle the
part. A cursor yields statements alone just when there is a derivation, and then those of the
derivation (`remaining_exact`). -/
namespace QuadAsm.Cursor

/-! ### Reading one statement, backwards -/

section
variable {last : Span} {tokens rest : List Token}

theorem ok_of_map {α β : Type} {f : α → β} {result : Except Diagnostic α × List Token} {b : β}
    (h : (result.1.map f, result.2) = (.ok b, rest)) : ∃ a, result = (.ok a, rest) ∧ b = f a := by
  obtain ⟨_ | a, behind⟩ := result
  · cases h
  · cases h
    exact ⟨a, rfl, rfl⟩

theorem refused_of_map {α β : Type} {f : α → β} {result : Except Diagnostic α} {d : Diagnostic}
    (h : result.map f = .error d) : result = .error d := by
  cases result with
  | error e =>
    cases h
    rfl
  | ok a => cases h

theorem error_of_map {α β : Type} {f : α → β} {result : Except Diagnostic α × List Token}
    {d : Diagnostic} (h : (result.1.map f, result.2) = (.error d, rest)) :
    result = (.error d, rest) := by
  obtain ⟨refused, same⟩ := Prod.mk.inj h
  exact Prod.ext (refused_of_map refused) same

theorem EndsLine.nil : EndsLine [] := nofun

theorem EndsLine.cons {newline : Token} (h : newline.kind = .newline) (tokens : List Token) :
    EndsLine (newline :: tokens) := by
  rintro _ ⟨⟩
  exact h

/-- What is read as operands is listed operands, up to the end of a line. -/
theorem listed_of_operands {found : List Token} (h : operands last tokens = (.ok found, rest)) :
    ∃ given, tokens = given ++ rest ∧ Listed given found ∧ EndsLine rest := by
  fun_induction operands last tokens generalizing found rest with
  | case1 => cases h
  | case2 token fits =>
    cases h
    exact ⟨[token], rfl, .one fits, .nil⟩
  | case3 token fits newline others ends =>
    cases h
    exact ⟨[token], rfl, .one fits, .cons ends others⟩
  | case4 token fits comma others _ separates =>
    rename_i ih
    obtain ⟨later, read, rfl⟩ := ok_of_map h
    obtain ⟨given, rfl, listed, ends⟩ := ih read
    exact ⟨token :: comma :: given, rfl, .more fits separates listed, ends⟩
  | case5 => cases h
  | case6 => cases h

/-- What is read as a statement is a label, or an instruction up to the end of its line. -/
theorem derived_of_statementOf {statement : Statement}
    (h : statementOf last tokens = (.ok statement, rest)) :
    (∃ name colon, tokens = name :: colon :: rest ∧ name.kind = .identifier ∧
        colon.kind = .colon ∧ statement = .label name.text (name.span.cover colon.span)) ∨
      ∃ mnemonic given found, tokens = mnemonic :: (given ++ rest) ∧
        mnemonic.kind = .identifier ∧ Arguments given found ∧ EndsLine rest ∧
          statement = instruction mnemonic found := by
  obtain _ | ⟨first, _ | ⟨second, others⟩⟩ := tokens
  · cases h
  · simp only [statementOf] at h
    split at h
    · rename_i named
      cases h
      exact .inr ⟨first, [], [], rfl, named, .none, .nil, rfl⟩
    · cases h
  · simp only [statementOf] at h
    split at h
    · rename_i named
      split at h
      · rename_i declared
        cases h
        exact .inl ⟨first, second, rfl, named, declared, rfl⟩
      · split at h
        · rename_i newline
          cases h
          exact .inr ⟨first, [], [], rfl, named, .none, .cons newline others, rfl⟩
        · obtain ⟨found, read, rfl⟩ := ok_of_map h
          obtain ⟨given, split, listed, ends⟩ := listed_of_operands read
          exact .inr ⟨first, given, found, by rw [split], named, .some listed, ends, rfl⟩
    · cases h

/-- A fault is the last thing a cursor yields. -/
theorem remaining_refused {token : Token} {d : Diagnostic} (starts : token.kind ≠ .newline)
    (refused : statementOf last (token :: tokens) = (.error d, rest)) :
    remaining ⟨token :: tokens, last⟩ = [.error d] := by
  have next : next? ⟨token :: tokens, last⟩ = (some (.error d), ⟨[], last⟩) := by
    simp [next?, skipNewlines, starts, atEnd, Cursor.statement, refused]
  rw [remaining_of_some (congrArg Prod.fst next), next, remaining_of_none rfl]

/-- Tokens of which a cursor makes statements alone are derived. -/
theorem exists_derives (h : ∀ item ∈ remaining ⟨tokens, last⟩, ∃ statement, item = .ok statement) :
    ∃ statements, Derives tokens statements := by
  induction length : tokens.length using Nat.strongRecOn generalizing tokens with
  | _ n ih =>
    subst length
    cases tokens with
    | nil => exact ⟨[], .nil⟩
    | cons token tokens =>
      by_cases newline : token.kind = .newline
      · rw [remaining_newline newline] at h
        obtain ⟨statements, derives⟩ := ih _ (Nat.lt_succ_self _) h rfl
        exact ⟨statements, .newline newline derives⟩
      · have shorter := statementOf_length_lt last (List.cons_ne_nil token tokens)
        cases read : statementOf last (token :: tokens) with
        | mk result rest =>
          rw [read] at shorter
          cases result with
          | error d =>
            rw [remaining_refused newline read] at h
            obtain ⟨_, ⟨⟩⟩ := h _ (List.mem_singleton_self _)
          | ok statement =>
            rw [remaining_statement newline read] at h
            obtain ⟨statements, derives⟩ :=
              ih _ shorter (fun item member => h item (List.mem_cons_of_mem _ member)) rfl
            refine ⟨statement :: statements, ?_⟩
            rcases derived_of_statementOf read with
              ⟨_, _, split, named, declared, rfl⟩ | ⟨_, _, _, split, named, arguments, ends, rfl⟩
            · rw [split]
              exact .label named declared derives
            · rw [split]
              exact .instruction named arguments ends derives

end

/-! ### Derivations as data -/

/-- What one rule of the grammar takes from a token list. -/
inductive Part where
  | newline (token : Token)
  | label (name colon : Token)
  /-- A mnemonic, the tokens behind it, and those of them that are its operands. -/
  | instruction (mnemonic : Token) (given operands : List Token)

namespace Part

def tokens : Part → List Token
  | newline token => [token]
  | label name colon => [name, colon]
  | instruction mnemonic given _ => mnemonic :: given

/-- The statement that the part makes; a newline makes none. -/
def statement? : Part → Option Statement
  | newline _ => none
  | label name colon => some (.label name.text (name.span.cover colon.span))
  | instruction mnemonic _ operands =>
    some (.instruction mnemonic.text (operands.map Token.text)
      ((operands.map Token.span).foldl Span.cover mnemonic.span))

/-- Whether the part is what its rule asks for. -/
def Fits : Part → Prop
  | newline token => token.kind = .newline
  | label name colon => name.kind = .identifier ∧ colon.kind = .colon
  | instruction mnemonic given operands =>
    mnemonic.kind = .identifier ∧ Arguments given operands

/-- Whether one part may stand before the other: behind an instruction only a newline may. -/
def Precedes : Part → Part → Prop
  | instruction _ _ _, newline _ => True
  | instruction _ _ _, _ => False
  | _, _ => True

end Part

/-- A way to derive a token list. -/
structure Derivation (tokens : List Token) where
  parts : List Part
  fits : ∀ part ∈ parts, part.Fits
  chain : parts.IsChain Part.Precedes
  whole : parts.flatMap Part.tokens = tokens

/-- What the derivation says, in order. -/
def Derivation.statements {tokens : List Token} (d : Derivation tokens) : List Statement :=
  d.parts.filterMap Part.statement?

/-! ### From parts to the grammar and back -/

variable {last : Span} {tokens rest : List Token} {parts : List Part}

theorem Part.instruction_statement (mnemonic : Token) (given operands : List Token) :
    (Part.instruction mnemonic given operands).statement? =
      some (Cursor.instruction mnemonic operands) := by
  rw [statement?, List.foldl_map]
  rfl

/-- Behind an instruction the line ends. -/
theorem endsLine_of_chain {mnemonic : Token} {given operands : List Token}
    (chain : (Part.instruction mnemonic given operands :: parts).IsChain Part.Precedes)
    (fits : ∀ part ∈ parts, part.Fits) : EndsLine (parts.flatMap Part.tokens) := by
  cases parts with
  | nil => exact .nil
  | cons next parts =>
    have precedes := (List.isChain_cons_cons.mp chain).1
    have fit := fits next (List.mem_cons_self ..)
    cases next with
    | newline token => exact .cons fit _
    | label _ _ => exact precedes.elim
    | instruction _ _ _ => exact precedes.elim

/-- What parts say is derived from their tokens. -/
theorem derives_of_parts (fits : ∀ part ∈ parts, part.Fits)
    (chain : parts.IsChain Part.Precedes) :
    Derives (parts.flatMap Part.tokens) (parts.filterMap Part.statement?) := by
  induction parts with
  | nil => exact .nil
  | cons part parts ih =>
    obtain ⟨fit, others⟩ := List.forall_mem_cons.mp fits
    have derives := ih others chain.tail
    rw [List.flatMap_cons, List.filterMap_cons]
    cases part with
    | newline token => exact .newline fit derives
    | label name colon => exact .label fit.1 fit.2 derives
    | instruction mnemonic given operands =>
      rw [Part.instruction_statement]
      exact .instruction fit.1 fit.2 (endsLine_of_chain chain others) derives

theorem Derivation.derives (d : Derivation tokens) : Derives tokens d.statements := by
  obtain ⟨parts, fits, chain, rfl⟩ := d
  exact derives_of_parts fits chain

/-- Where a line ends, the part there is a newline. -/
theorem precedes_of_endsLine {mnemonic : Token} {given operands : List Token}
    (fits : ∀ part ∈ parts, part.Fits) (ends : EndsLine (parts.flatMap Part.tokens)) :
    ∀ next ∈ parts.head?, (Part.instruction mnemonic given operands).Precedes next := by
  rintro next first
  obtain ⟨others, rfl⟩ := List.head?_eq_some_iff.mp first
  have fit := fits next (List.mem_cons_self ..)
  cases next with
  | newline token => trivial
  | label name colon =>
    have newline := ends name rfl
    rw [fit.1] at newline
    cases newline
  | instruction other _ _ =>
    have newline := ends other rfl
    rw [fit.1] at newline
    cases newline

theorem Derives.exists_derivation {statements : List Statement}
    (h : Derives tokens statements) : Nonempty (Derivation tokens) := by
  induction h with
  | nil => exact ⟨⟨[], nofun, .nil, rfl⟩⟩
  | @newline token _ _ newline _ ih =>
    obtain ⟨parts, fits, chain, rfl⟩ := ih
    refine ⟨⟨.newline token :: parts, ?_, ?_, rfl⟩⟩
    · exact List.forall_mem_cons.mpr ⟨newline, fits⟩
    · exact List.isChain_cons.mpr ⟨fun _ _ => trivial, chain⟩
  | @label name colon _ _ named declared _ ih =>
    obtain ⟨parts, fits, chain, rfl⟩ := ih
    refine ⟨⟨.label name colon :: parts, ?_, ?_, rfl⟩⟩
    · exact List.forall_mem_cons.mpr ⟨⟨named, declared⟩, fits⟩
    · exact List.isChain_cons.mpr ⟨fun _ _ => trivial, chain⟩
  | @instruction mnemonic given operands _ _ named arguments ends _ ih =>
    obtain ⟨parts, fits, chain, rfl⟩ := ih
    refine ⟨⟨.instruction mnemonic given operands :: parts, ?_, ?_, rfl⟩⟩
    · exact List.forall_mem_cons.mpr ⟨⟨named, arguments⟩, fits⟩
    · exact List.isChain_cons.mpr ⟨precedes_of_endsLine fits ends, chain⟩

/-! ### No list has two derivations -/

theorem Listed.unique {given found other : List Token} (h : Listed given found)
    (h' : Listed given other) : found = other := by
  induction h generalizing other with
  | one _ =>
    cases h' with
    | one _ => rfl
  | more _ _ _ ih =>
    cases h' with
    | more _ _ others => rw [ih others]

theorem Arguments.unique {given found other : List Token} (h : Arguments given found)
    (h' : Arguments given other) : found = other := by
  cases h with
  | none =>
    cases h' with
    | none => rfl
    | some listed => cases listed
  | some listed =>
    cases h' with
    | none => cases listed
    | some others => exact listed.unique others

/-- A part is settled by its tokens. -/
theorem Part.eq_of_tokens {part other : Part} (fit : part.Fits) (fit' : other.Fits)
    (same : part.tokens = other.tokens) : part = other := by
  -- A second token that is a colon is no operand, so a label is no instruction.
  have label_ne (name colon mnemonic : Token) {given operands : List Token}
      (declared : colon.kind = .colon) (arguments : Arguments given operands) :
      [name, colon] ≠ mnemonic :: given := by
    rintro ⟨⟩
    obtain _ | ⟨⟨operand⟩⟩ := arguments
    rw [declared] at operand
    cases operand
  cases part <;> cases other
  case newline.newline => cases same; rfl
  case newline.label =>
    cases same
  case newline.instruction =>
    cases same
    cases fit.symm.trans fit'.1
  case label.newline => cases same
  case label.label => cases same; rfl
  case label.instruction => exact absurd same (label_ne _ _ _ fit.2 fit'.2)
  case instruction.newline =>
    cases same
    cases fit'.symm.trans fit.1
  case instruction.label => exact absurd same.symm (label_ne _ _ _ fit'.2 fit.2)
  case instruction.instruction =>
    cases same
    rw [fit.2.unique fit'.2]

/-- What is left when the first part of some tokens has been read. -/
def behindPart : List Token → List Token
  | [] => []
  | token :: tokens =>
    if token.kind = .newline then tokens else (statementOf .empty (token :: tokens)).2

theorem behindPart_eq {part : Part} (fits : ∀ each ∈ part :: parts, each.Fits)
    (chain : (part :: parts).IsChain Part.Precedes) :
    behindPart ((part :: parts).flatMap Part.tokens) = parts.flatMap Part.tokens := by
  obtain ⟨fit, others⟩ := List.forall_mem_cons.mp fits
  rw [List.flatMap_cons]
  cases part with
  | newline token => exact if_pos fit
  | label name colon =>
    simp [Part.tokens, behindPart, statementOf, fit.1, fit.2]
  | instruction mnemonic given operands =>
    have named : mnemonic.kind ≠ .newline := by simp [fit.1]
    have read := statementOf_of_arguments fit.1 fit.2 (endsLine_of_chain chain others) .empty
    simp [Part.tokens, behindPart, named, read]

theorem parts_unique {others : List Part} (fits : ∀ part ∈ parts, part.Fits)
    (chain : parts.IsChain Part.Precedes) (fits' : ∀ part ∈ others, part.Fits)
    (chain' : others.IsChain Part.Precedes)
    (same : parts.flatMap Part.tokens = others.flatMap Part.tokens) : parts = others := by
  have nonempty (part : Part) : part.tokens ≠ [] := by cases part <;> exact nofun
  induction parts generalizing others with
  | nil =>
    cases others with
    | nil => rfl
    | cons other _ => exact absurd (List.append_eq_nil_iff.mp same.symm).1 (nonempty other)
  | cons part parts ih =>
    cases others with
    | nil => exact absurd (List.append_eq_nil_iff.mp same).1 (nonempty part)
    | cons other others =>
      have behind := congrArg behindPart same
      rw [behindPart_eq fits chain, behindPart_eq fits' chain'] at behind
      rw [List.flatMap_cons, List.flatMap_cons, behind] at same
      obtain ⟨fit, fits⟩ := List.forall_mem_cons.mp fits
      obtain ⟨fit', fits'⟩ := List.forall_mem_cons.mp fits'
      rw [Part.eq_of_tokens fit fit' (List.append_cancel_right same),
        ih fits chain.tail fits' chain'.tail behind]

theorem Derivation.unique (d e : Derivation tokens) : d = e := by
  obtain ⟨parts, fits, chain, whole⟩ := d
  obtain ⟨others, fits', chain', whole'⟩ := e
  have same := parts_unique fits chain fits' chain' (whole.trans whole'.symm)
  subst same
  rfl

/-- **A cursor yields what the grammar derives.** Of any tokens it yields statements alone just
when they have a derivation. There is one derivation at most, and the statements that it makes,
one for each of its parts but the newlines, are what the cursor yields, in order. -/
theorem remaining_exact (tokens : List Token) :
    ((∀ item ∈ (ofTokens tokens).remaining, ∃ statement, item = .ok statement) ↔
        Nonempty (Derivation tokens)) ∧
      Subsingleton (Derivation tokens) ∧
      ∀ d : Derivation tokens, (ofTokens tokens).remaining = d.statements.map .ok := by
  have yields (d : Derivation tokens) : (ofTokens tokens).remaining = d.statements.map .ok :=
    d.derives.remaining _
  refine ⟨⟨?_, ?_⟩, ⟨Derivation.unique⟩, yields⟩
  · intro alone
    obtain ⟨statements, derives⟩ := exists_derives alone
    exact derives.exists_derivation
  · rintro ⟨d⟩ item member
    rw [yields d] at member
    obtain ⟨statement, _, rfl⟩ := List.mem_map.mp member
    exact ⟨statement, rfl⟩

end QuadAsm.Cursor
