import QuadAsm.Proofs.Program.Phrase
import QuadAsm.Proofs.Token.Scan

/-! Phrases written down as a text.

A `Layout` is any text that a list of phrases can be written as: gaps of separators between
words and around commas and colons, a comment at the end of a line, lines that say nothing,
and a label on a line of its own or before whatever comes next. An instruction ends with its
line. Every layout is read as tokens of which the grammar makes just these phrases
(`Layout.yields`). -/
namespace QuadAsm

open Token (Kind Yields)

namespace Layout

/-! ### The pieces of a line -/

/-- Nothing but separators. -/
def Gap (w : List Char) : Prop := ∀ c ∈ w, Token.isSeparator c = true

instance (w : List Char) : Decidable (Gap w) := List.decidableBAll _ w

/-- A gap and perhaps a comment. -/
inductive Margin : List Char → Prop where
  | plain {gap : List Char} (separates : Gap gap) : Margin gap
  | comment {gap text : List Char} (separates : Gap gap) (line : ∀ c ∈ text, c ≠ '\n') :
      Margin (gap ++ ';' :: text)

def IsName (name : String) : Prop := Kind.identifier.pattern.Matches name.toList

/-- A name or a literal of any radix. -/
def IsOperand (text : String) : Prop :=
  ∃ kind : Kind, kind.isOperand = true ∧ kind.pattern.Matches text.toList

/-- Operands with commas between them. -/
inductive Series : List String → List Char → Prop where
  | one {operand : String} (fits : IsOperand operand) : Series [operand] operand.toList
  | more {operand : String} {operands : List String} {before after w : List Char}
      (fits : IsOperand operand) (left : Gap before) (right : Gap after)
      (others : Series operands w) :
      Series (operand :: operands) (operand.toList ++ (before ++ ([','] ++ (after ++ w))))

/-- What stands behind a mnemonic: nothing, or operands behind a gap. -/
inductive Arguments : List String → List Char → Prop where
  | none : Arguments [] []
  | some {operands : List String} {gap w : List Char} (apart : gap ≠ []) (separates : Gap gap)
      (listed : Series operands w) : Arguments operands (gap ++ w)

/-- The declaration of a label. -/
inductive Tag (name : String) : List Char → Prop where
  | mk {before after : List Char} (indent : Gap before) (named : IsName name)
      (separates : Gap after) : Tag name (before ++ (name.toList ++ (after ++ [':'])))

/-- An instruction up to the end of its line. -/
inductive Line (mnemonic : String) (operands : List String) : List Char → Prop where
  | mk {before w margin : List Char} (indent : Gap before) (named : IsName mnemonic)
      (arguments : Arguments operands w) (closing : Margin margin) :
      Line mnemonic operands (before ++ (mnemonic.toList ++ (w ++ margin)))

end Layout

/-- The texts that these phrases can be written as. -/
inductive Layout : List Phrase → List Char → Prop where
  | done {w : List Char} (closing : Layout.Margin w) : Layout [] w
  | blank {phrases : List Phrase} {w rest : List Char} (idle : Layout.Margin w)
      (later : Layout phrases rest) : Layout phrases (w ++ '\n' :: rest)
  | label {name : String} {phrases : List Phrase} {w rest : List Char}
      (tag : Layout.Tag name w) (later : Layout phrases rest) :
      Layout (.label name :: phrases) (w ++ rest)
  | instruction {mnemonic : String} {operands : List String} {phrases : List Phrase}
      {w rest : List Char} (line : Layout.Line mnemonic operands w)
      (later : Layout phrases rest) :
      Layout (.instruction mnemonic operands :: phrases) (w ++ '\n' :: rest)
  | last {mnemonic : String} {operands : List String} {w : List Char}
      (line : Layout.Line mnemonic operands w) : Layout [.instruction mnemonic operands] w

namespace Layout

/-! ### What a piece can start with -/

/-- The text does not start with a character of the class. -/
def Avoids (test : Char → Bool) (w : List Char) : Prop := ∀ d ∈ w.head?, test d = false

theorem Avoids.nil {test : Char → Bool} : Avoids test [] := nofun

theorem Avoids.cons {test : Char → Bool} {c : Char} (h : test c = false) (w : List Char) :
    Avoids test (c :: w) := by
  intro d first
  obtain rfl := Option.some.inj first
  exact h

theorem Avoids.append {test : Char → Bool} {v w : List Char} (h : Avoids test v)
    (h' : Avoids test w) : Avoids test (v ++ w) := by
  cases v with
  | nil => exact h'
  | cons c v => exact h

/-- The line or the text ends here. -/
def Breaks (w : List Char) : Prop := ∀ d ∈ w.head?, d = '\n'

theorem Breaks.nil : Breaks [] := nofun

theorem Breaks.cons (w : List Char) : Breaks ('\n' :: w) := by
  intro d first
  exact (Option.some.inj first).symm

theorem Breaks.avoids {test : Char → Bool} {w : List Char} (breaks : Breaks w)
    (h : test '\n' = false) : Avoids test w := by
  intro d first
  rw [breaks d first]
  exact h

/-- A token that is no gap does not start like one. -/
theorem avoids_separator {kind : Kind} {w : List Char} (h : kind.pattern.Matches w)
    (solid : kind ≠ .whitespace) (rest : List Char) : Avoids Token.isSeparator (w ++ rest) := by
  obtain ⟨c, cs, rfl, starts, _⟩ := Kind.eq_cons_of_matches h
  refine .cons ?_ _
  cases separates : Token.isSeparator c with
  | false => rfl
  | true =>
    have blank : Kind.starts .whitespace c = true := separates
    have same : kind.family = .whitespace := Kind.family_of_starts starts blank
    cases kind with
    | whitespace => exact absurd rfl solid
    | _ => cases same

theorem Gap.avoids {gap : List Char} (separates : Gap gap) : Avoids Text.isNamePart gap := by
  intro c first
  have separator := Token.isSeparator_iff.mp (separates c (List.mem_of_head? first))
  rw [← Bool.not_eq_true, Text.isNamePart_iff]
  omega

theorem Margin.avoids {w : List Char} (margin : Margin w) : Avoids Text.isNamePart w := by
  cases margin with
  | plain separates => exact separates.avoids
  | comment separates _ => exact separates.avoids.append (.cons (by decide) _)

theorem Arguments.avoids {operands : List String} {w : List Char}
    (arguments : Arguments operands w) : Avoids Text.isNamePart w := by
  cases arguments with
  | none => exact .nil
  | @some _ gap _ apart separates _ =>
    cases gap with
    | nil => exact absurd rfl apart
    | cons c gap => exact separates.avoids

theorem IsOperand.avoids {text : String} (fits : IsOperand text) (rest : List Char) :
    Avoids Token.isSeparator (text.toList ++ rest) := by
  obtain ⟨kind, operand, matched⟩ := fits
  refine avoids_separator matched ?_ rest
  intro same
  rw [same] at operand
  cases operand

theorem Series.avoids {operands : List String} {w : List Char} (series : Series operands w)
    (rest : List Char) : Avoids Token.isSeparator (w ++ rest) := by
  cases series with
  | one fits => exact fits.avoids rest
  | more fits _ _ _ =>
    rw [List.append_assoc]
    exact fits.avoids _

/-! ### Reading the pieces -/

/-- A gap leaves no trace. -/
theorem Gap.skip {gap w rest : List Char} {sort : List Token → Prop} (separates : Gap gap)
    (stop : Avoids Token.isSeparator (w ++ rest)) (later : Yields rest w sort) :
    Yields rest (gap ++ w) sort := by
  cases gap with
  | nil => exact later
  | cons c gap =>
    have head : Token.isSeparator c = true := separates c (List.mem_cons_self ..)
    have tail : ∀ d ∈ gap, Token.isSeparator d = true :=
      fun d member => separates d (List.mem_cons_of_mem c member)
    have blank : Kind.whitespace.pattern.Matches (c :: gap) := .plain (.head head (.run tail))
    exact .trivia rfl blank stop later

/-- Where a line or the text ends, a margin leaves no trace. -/
theorem Margin.skip {v w rest : List Char} {sort : List Token → Prop} (margin : Margin v)
    (breaks : Breaks (w ++ rest)) (later : Yields rest w sort) : Yields rest (v ++ w) sort := by
  cases margin with
  | plain separates => exact separates.skip (breaks.avoids (by decide)) later
  | @comment gap text separates line =>
    have remark : Kind.comment.pattern.Matches (';' :: text) :=
      .plain (.head rfl (.run fun c member => bne_iff_ne.mpr (line c member)))
    rw [List.append_assoc]
    refine separates.skip ?_ (.trivia rfl remark (breaks.avoids rfl) later)
    rw [List.append_assoc]
    exact avoids_separator remark nofun _

/-- An operand is one token more. -/
theorem IsOperand.yields {text : String} {w rest : List Char} {second sort : List Token → Prop}
    (fits : IsOperand text) (stop : Avoids Text.isNamePart (w ++ rest))
    (later : Yields rest w second)
    (join : ∀ token tokens, token.kind.isOperand = true → token.text = text → second tokens →
      sort (token :: tokens)) : Yields rest (text.toList ++ w) sort := by
  obtain ⟨kind, operand, matched⟩ := fits
  have kept : kind.isTrivia = false := by
    cases kind with
    | whitespace => cases operand
    | comment => cases operand
    | _ => rfl
  have goesOn : kind.goesOn = Text.isNamePart := by
    cases kind with
    | identifier => rfl
    | literal radix => rfl
    | _ => cases operand
  refine .token kept matched (goesOn ▸ stop) later ?_
  intro token tokens named written there
  rw [String.ofList_toList] at written
  exact join token tokens (named ▸ operand) written there

theorem Series.yields {operands : List String} {w rest : List Char} (series : Series operands w)
    (stop : Avoids Text.isNamePart rest) :
    Yields rest w fun given =>
      ∃ found, Cursor.Listed given found ∧ found.map Token.text = operands := by
  induction series with
  | @one text fits =>
    have nothing : Yields rest [] (· = []) := .nil rfl
    rw [← List.append_nil text.toList]
    refine fits.yields stop nothing fun token tokens kind written none => ?_
    rw [none]
    exact ⟨[token], .one kind, congrArg ([·]) written⟩
  | @more text operands before after w fits left right others ih =>
    have comma : Kind.comma.pattern.Matches [','] := .plain (.head rfl (.run nofun))
    have behind := right.skip (others.avoids rest) ih
    have separator : Yields rest ([','] ++ (after ++ w)) fun tokens => ∃ comma given found,
        tokens = comma :: given ∧ comma.kind = .comma ∧ Cursor.Listed given found ∧
          found.map Token.text = operands := by
      refine .token rfl comma (fun _ _ => rfl) behind fun token tokens kind _ there => ?_
      obtain ⟨found, listed, texts⟩ := there
      exact ⟨token, tokens, found, rfl, kind, listed, texts⟩
    refine fits.yields ?_ (left.skip (.cons (by decide) _) separator) ?_
    · rw [List.append_assoc]
      exact left.avoids.append (.cons (by decide) _)
    · intro token tokens kind written there
      obtain ⟨comma, given, found, rfl, separates, listed, texts⟩ := there
      refine ⟨token :: found, .more kind separates listed, ?_⟩
      rw [List.map_cons, written, texts]

theorem Arguments.yields {operands : List String} {w rest : List Char}
    (arguments : Arguments operands w) (stop : Avoids Text.isNamePart rest) :
    Yields rest w fun given =>
      ∃ found, Cursor.Arguments given found ∧ found.map Token.text = operands := by
  cases arguments with
  | none => exact .nil ⟨[], .none, rfl⟩
  | some _ separates listed =>
    refine separates.skip (listed.avoids rest) fun start => ?_
    obtain ⟨given, read, found, listed, texts⟩ := listed.yields stop start
    exact ⟨given, read, found, .some listed, texts⟩

/-- A name behind a gap is one token more. -/
theorem IsName.yields {name : String} {indent w rest : List Char}
    {second sort : List Token → Prop} (named : IsName name) (separates : Gap indent)
    (stop : Avoids Text.isNamePart (w ++ rest)) (later : Yields rest w second)
    (join : ∀ token tokens, token.kind = .identifier → token.text = name → second tokens →
      sort (token :: tokens)) : Yields rest (indent ++ (name.toList ++ w)) sort := by
  have word : Yields rest (name.toList ++ w) sort := by
    refine .token rfl named stop later fun token tokens kind written there => ?_
    rw [String.ofList_toList] at written
    exact join token tokens kind written there
  refine separates.skip ?_ word
  rw [List.append_assoc]
  exact avoids_separator named nofun _

/-- The tokens of a label's declaration. -/
theorem Tag.yields {name : String} {w : List Char} (tag : Tag name w) (rest : List Char) :
    Yields rest w fun tokens => ∃ word colon, tokens = [word, colon] ∧
      word.kind = .identifier ∧ word.text = name ∧ colon.kind = .colon := by
  obtain ⟨indent, named, separates⟩ := tag
  have colon : Kind.colon.pattern.Matches [':'] := .plain (.head rfl (.run nofun))
  have nothing : Yields rest [] (· = []) := .nil rfl
  have closing : Yields rest [':'] fun tokens => ∃ colon, tokens = [colon] ∧ colon.kind = .colon :=
    .token rfl colon (fun _ _ => rfl) nothing fun token tokens kind _ none =>
      ⟨token, congrArg (token :: ·) none, kind⟩
  refine named.yields indent ?_ (separates.skip (.cons (by decide) _) closing) ?_
  · rw [List.append_assoc]
    exact separates.avoids.append (.cons (by decide) _)
  · intro word tokens kind written there
    obtain ⟨colon, rfl, declared⟩ := there
    exact ⟨word, colon, rfl, kind, written, declared⟩

/-- The tokens of an instruction's line, where it ends. -/
theorem Line.yields {mnemonic : String} {operands : List String} {w rest : List Char}
    (line : Line mnemonic operands w) (breaks : Breaks rest) :
    Yields rest w fun tokens => ∃ word given found, tokens = word :: given ∧
      word.kind = .identifier ∧ word.text = mnemonic ∧ Cursor.Arguments given found ∧
        found.map Token.text = operands := by
  obtain @⟨before, args, margin, indent, named, arguments, closing⟩ := line
  have follows : Avoids Text.isNamePart rest := breaks.avoids (by decide)
  have nothing : Yields rest [] (· = []) := .nil rfl
  have closed : Yields rest (margin ++ []) (· = []) := closing.skip breaks nothing
  rw [List.append_nil] at closed
  have given : Yields rest (args ++ margin) fun tokens =>
      ∃ found, Cursor.Arguments tokens found ∧ found.map Token.text = operands := by
    refine (arguments.yields (closing.avoids.append follows)).append closed ?_
    intro tokens others here there
    rw [there, List.append_nil]
    exact here
  refine named.yields indent ?_ given ?_
  · rw [List.append_assoc]
    exact arguments.avoids.append (closing.avoids.append follows)
  · intro word tokens kind written there
    obtain ⟨found, arguments, texts⟩ := there
    exact ⟨word, tokens, found, rfl, kind, written, arguments, texts⟩

/-! ### Reading a layout -/

/-- The grammar makes statements of these tokens that say just these phrases. -/
def Says (phrases : List Phrase) (tokens : List Token) : Prop :=
  ∃ statements, Cursor.Derives tokens statements ∧ statements.map Statement.phrase = phrases

/-- A newline more ends a line, and says nothing. -/
theorem yields_newline {phrases : List Phrase} {rest : List Char}
    (later : Yields [] rest (Says phrases)) :
    Yields [] (['\n'] ++ rest) fun tokens => Cursor.EndsLine tokens ∧ Says phrases tokens := by
  have newline : Kind.newline.pattern.Matches ['\n'] := .plain (.head rfl (.run nofun))
  refine .token rfl newline (fun _ _ => rfl) later fun token tokens kind _ there => ?_
  obtain ⟨statements, derives, said⟩ := there
  refine ⟨?_, statements, .newline kind derives, said⟩
  intro other first
  obtain rfl := Option.some.inj first
  exact kind

/-- A layout is read as tokens of which the grammar makes just its phrases. -/
theorem yields {phrases : List Phrase} {w : List Char} (layout : Layout phrases w) :
    Yields [] w (Says phrases) := by
  induction layout with
  | @done w closing =>
    rw [← List.append_nil w]
    exact closing.skip .nil (.nil ⟨[], .nil, rfl⟩)
  | @blank phrases w rest idle _ ih =>
    exact idle.skip (.cons _) ((yields_newline ih).mono fun _ => And.right)
  | @label name phrases w rest tag _ ih =>
    refine (tag.yields (rest ++ [])).append ih fun tokens others here there => ?_
    obtain ⟨word, colon, rfl, named, rfl, declared⟩ := here
    obtain ⟨statements, derives, rfl⟩ := there
    exact ⟨_, .label named declared derives, rfl⟩
  | @instruction mnemonic operands phrases w rest line _ ih =>
    refine (line.yields (.cons _)).append (yields_newline ih) fun tokens others here there => ?_
    obtain ⟨word, given, found, rfl, named, rfl, arguments, rfl⟩ := here
    -- The newline behind the line is where the grammar has the instruction end.
    obtain ⟨ends, statements, derives, rfl⟩ := there
    exact ⟨_, .instruction named arguments ends derives, rfl⟩
  | @last mnemonic operands w line =>
    have ended : Cursor.EndsLine [] := nofun
    refine (line.yields .nil).mono fun tokens here => ?_
    obtain ⟨word, given, found, rfl, named, rfl, arguments, rfl⟩ := here
    have alone := Cursor.Derives.instruction named arguments ended .nil
    rw [List.append_nil] at alone
    exact ⟨_, alone, rfl⟩

end Layout

end QuadAsm
