import QuadAsm.Proofs.Instruction.Case
import QuadAsm.Proofs.Statement.Places
import QuadAsm.Proofs.Token.Case
import QuadAsm.Proofs.Token.Slices

/-! Statements in any case.

The grammar looks at the kinds of tokens alone, so tokens that are related each to each, and are of
the same kinds, have derivations of the same shape (`Derivation.exists_related`). In a derivation
some tokens are read without regard to case (`Part.Caseless`): mnemonics, and operands that are
registers' names or literals behind a mark. When letters are in the other case within these, and no
others (`Recases`), a text makes the same statements, but for the case of these words
(`exists_recased_statements`): no byte is in two tokens, so all other tokens are as they were. -/
namespace QuadAsm

namespace Cursor

/-! ### Related tokens -/

section
variable {R S : Token → Token → Prop} {part next other later : Part} {parts others : List Part}
  {given given' found tokens tokens' : List Token}

/-- Two parts that one rule takes, from tokens that are related each to each. -/
inductive Part.Related (R : Token → Token → Prop) : Part → Part → Prop where
  | newline {token other : Token} (same : R token other) : Related R (newline token) (newline other)
  | label {name colon name' colon' : Token} (named : R name name') (declared : R colon colon') :
      Related R (label name colon) (label name' colon')
  | instruction {mnemonic mnemonic' : Token} {given operands given' operands' : List Token}
      (named : R mnemonic mnemonic') (arguments : List.Forall₂ R operands operands') :
      Related R (instruction mnemonic given operands) (instruction mnemonic' given' operands')

theorem forall₂_append_left {α β : Type} {R : α → β → Prop} {u v : List α} {w : List β}
    (h : List.Forall₂ R (u ++ v) w) :
    ∃ u' v', w = u' ++ v' ∧ List.Forall₂ R u u' ∧ List.Forall₂ R v v' := by
  have first := List.forall₂_take u.length h
  have second := List.forall₂_drop u.length h
  rw [List.take_left] at first
  rw [List.drop_left] at second
  exact ⟨_, _, (List.take_append_drop ..).symm, first, second⟩

variable (kinds : ∀ token other, R token other → other.kind = token.kind)

include kinds in
theorem Listed.exists_related (listed : Listed given found) (related : List.Forall₂ R given given') :
    ∃ found', Listed given' found' ∧ List.Forall₂ R found found' := by
  induction listed generalizing given' with
  | one fits =>
    cases related with
    | cons same nothing =>
      cases nothing
      exact ⟨_, .one (kinds _ _ same ▸ fits), .cons same .nil⟩
  | more fits separates _ ih =>
    cases related with
    | cons same behind =>
      cases behind with
      | cons comma others =>
        obtain ⟨found', listed, related⟩ := ih others
        refine ⟨_, .more (kinds _ _ same ▸ fits) ?_ listed, .cons same related⟩
        rw [kinds _ _ comma, separates]

include kinds in
theorem Arguments.exists_related (arguments : Arguments given found)
    (related : List.Forall₂ R given given') :
    ∃ found', Arguments given' found' ∧ List.Forall₂ R found found' := by
  cases arguments with
  | none =>
    cases related
    exact ⟨[], .none, .nil⟩
  | some listed =>
    obtain ⟨found', listed, related⟩ := listed.exists_related kinds related
    exact ⟨found', .some listed, related⟩

include kinds in
/-- A rule that takes a part takes tokens of the same kinds. -/
theorem Part.exists_related (fit : part.Fits) (related : List.Forall₂ R part.tokens tokens') :
    ∃ other, other.Fits ∧ other.tokens = tokens' ∧ part.Related R other := by
  cases part with
  | newline token =>
    obtain ⟨other, _, same, nothing, rfl⟩ := List.forall₂_cons_left_iff.mp related
    cases nothing
    exact ⟨newline other, (kinds _ _ same).trans fit, rfl, .newline same⟩
  | label name colon =>
    obtain ⟨name', _, named, behind, rfl⟩ := List.forall₂_cons_left_iff.mp related
    obtain ⟨colon', _, declared, nothing, rfl⟩ := List.forall₂_cons_left_iff.mp behind
    cases nothing
    exact ⟨label name' colon', ⟨(kinds _ _ named).trans fit.1, (kinds _ _ declared).trans fit.2⟩,
      rfl, .label named declared⟩
  | instruction mnemonic given operands =>
    obtain ⟨mnemonic', given', named, behind, rfl⟩ := List.forall₂_cons_left_iff.mp related
    obtain ⟨operands', arguments, related⟩ := fit.2.exists_related kinds behind
    exact ⟨instruction mnemonic' given' operands', ⟨(kinds _ _ named).trans fit.1, arguments⟩, rfl,
      .instruction named related⟩

theorem Part.Related.precedes (first : part.Related R other) (second : next.Related R later)
    (precedes : part.Precedes next) : other.Precedes later := by
  cases first <;> cases second <;> exact precedes

theorem isChain_of_related (related : List.Forall₂ (Part.Related R) parts others)
    (chain : parts.IsChain Part.Precedes) : others.IsChain Part.Precedes := by
  induction related with
  | nil => exact .nil
  | cons first behind ih =>
    refine List.isChain_cons.mpr ⟨?_, ih chain.tail⟩
    intro later starts
    cases behind with
    | nil => cases starts
    | cons second _ =>
      cases starts
      exact first.precedes second (List.isChain_cons_cons.mp chain).1

include kinds in
theorem exists_related_parts (fits : ∀ part ∈ parts, part.Fits)
    (related : List.Forall₂ R (parts.flatMap Part.tokens) tokens') :
    ∃ others : List Part, (∀ part ∈ others, part.Fits) ∧ others.flatMap Part.tokens = tokens' ∧
      List.Forall₂ (Part.Related R) parts others := by
  induction parts generalizing tokens' with
  | nil =>
    cases related
    exact ⟨[], nofun, rfl, .nil⟩
  | cons part parts ih =>
    obtain ⟨fit, fits⟩ := List.forall_mem_cons.mp fits
    obtain ⟨first, behind, rfl, here, there⟩ := forall₂_append_left related
    obtain ⟨other, fit', rfl, same⟩ := Part.exists_related kinds fit here
    obtain ⟨others, fits', rfl, rest⟩ := ih fits there
    exact ⟨other :: others, List.forall_mem_cons.mpr ⟨fit', fits'⟩, rfl, .cons same rest⟩

include kinds in
/-- Tokens that are related, and of the same kinds, have derivations of the same shape. -/
theorem Derivation.exists_related (d : Derivation tokens) (related : List.Forall₂ R tokens tokens') :
    ∃ e : Derivation tokens', List.Forall₂ (Part.Related R) d.parts e.parts := by
  obtain ⟨parts, fits, chain, rfl⟩ := d
  obtain ⟨others, fits', whole, related⟩ := exists_related_parts kinds fits related
  exact ⟨⟨others, fits', isChain_of_related related chain, whole⟩, related⟩

end

/-! ### Bytes and their tokens -/

/-- What no two of some things have together, one of them has at most. -/
theorem eq_of_pairwise {α : Type} {p : α → Prop} {l : List α} {a b : α}
    (once : l.Pairwise fun a b => ¬ (p a ∧ p b)) (first : a ∈ l) (second : b ∈ l) (here : p a)
    (there : p b) : a = b := by
  have symmetric : Std.Symm fun a b => ¬ (p a ∧ p b) := ⟨fun _ _ h both => h both.symm⟩
  by_contra differ
  exact once.forall first second differ ⟨here, there⟩

theorem Derivation.mem_tokens {tokens : List Token} (d : Derivation tokens) {part : Part}
    {token : Token} (member : part ∈ d.parts) (among : token ∈ part.tokens) : token ∈ tokens := by
  rw [← d.whole]
  exact List.mem_flatMap.mpr ⟨part, member, among⟩

/-- A byte is in one token at most, and so in one part. -/
theorem Derivation.eq_of_holds {tokens : List Token} {a b : Token} {part other : Part} {byte : Nat}
    (d : Derivation tokens) (apart : tokens.Pairwise fun a b => a.span.stop ≤ b.span.start)
    (member : part ∈ d.parts) (member' : other ∈ d.parts) (first : a ∈ part.tokens)
    (second : b ∈ other.tokens) (holds : a.span.Holds byte) (holds' : b.span.Holds byte) :
    part = other ∧ a = b := by
  have once : tokens.Pairwise fun a b => ¬ (a.span.Holds byte ∧ b.span.Holds byte) := by
    refine apart.imp fun {a b} le => ?_
    rintro ⟨⟨_, before⟩, ⟨behind, _⟩⟩
    omega
  constructor
  · rw [← d.whole] at once
    have once : d.parts.Pairwise fun part other => ¬ ((∃ a ∈ part.tokens, a.span.Holds byte) ∧
        ∃ b ∈ other.tokens, b.span.Holds byte) := by
      refine (List.pairwise_flatMap.mp once).2.imp fun {part other} disjoint => ?_
      rintro ⟨⟨a, first, holds⟩, ⟨b, second, holds'⟩⟩
      exact disjoint a first b second ⟨holds, holds'⟩
    exact eq_of_pairwise once member member' ⟨a, first, holds⟩ ⟨b, second, holds'⟩
  · exact eq_of_pairwise once (d.mem_tokens member first) (d.mem_tokens member' second) holds holds'

/-! ### Tokens that are read in any case -/

/-- The mnemonic of an instruction, an operand that is a register's name, or one that is a literal
behind a mark. -/
inductive Part.Caseless : Part → Token → Prop where
  | mnemonic {mnemonic : Token} {given operands : List Token} :
      Caseless (instruction mnemonic given operands) mnemonic
  | register {mnemonic operand : Token} {given operands : List Token} (member : operand ∈ operands)
      (r : Register) (named : operand.text.toLower = r.name) :
      Caseless (instruction mnemonic given operands) operand
  | literal {mnemonic operand : Token} {given operands : List Token} (member : operand ∈ operands)
      (marked : operand.kind = .literal .binary ∨ operand.kind = .literal .hexadecimal) :
      Caseless (instruction mnemonic given operands) operand

theorem Part.Caseless.mem {part : Part} {token : Token} (h : part.Caseless token)
    (fit : part.Fits) : token ∈ part.tokens := by
  cases h with
  | mnemonic => exact List.mem_cons_self
  | register member | literal member => exact List.mem_cons_of_mem _ (fit.2.subset member)

end Cursor

/-- The byte is in a token of the text that is read in any case. -/
def CaseFree (source : String) (byte : Nat) : Prop :=
  ∃ tokens, Token.read source = .ok tokens ∧ ∃ d : Cursor.Derivation tokens, ∃ part ∈ d.parts,
    ∃ token, part.Caseless token ∧ token.span.Holds byte

/-- The other text is the source with letters in the other case, any of those within mnemonics,
within operands that are registers' names and within literals behind a mark, and no others. -/
def Recases (source other : String) : Prop :=
  Text.Recased (CaseFree source) 0 source.toList other.toList

variable {source other : String} {tokens : List Token} {token : Token}

namespace Cursor

/-- A token that is not read in any case has no byte that is free. -/
theorem Derivation.fixed (d : Derivation tokens) (read : Token.read source = .ok tokens) {part : Part}
    (member : part ∈ d.parts) (among : token ∈ part.tokens) (cased : ¬ part.Caseless token) :
    ∀ byte, token.span.Holds byte → ¬ CaseFree source byte := by
  rintro byte holds ⟨tokens', read', e, part', member', token', caseless, holds'⟩
  cases read.symm.trans read'
  obtain rfl := d.unique e
  have among' := caseless.mem (d.fits part' member')
  obtain ⟨rfl, rfl⟩ :=
    d.eq_of_holds (Token.pairwise_of_read read) member member' among among' holds holds'
  exact cased caseless

end Cursor

/-! ### Recased statements -/

/-- A statement at its place, with letters of its mnemonic and of its operands in the other case. A
label is as it was. -/
inductive Statement.Recased : Statement → Statement → Prop where
  | label {name : String} {span : Span} : Recased (label name span) (label name span)
  | instruction {mnemonic mnemonic' : String} {texts texts' : List String} {span : Span}
      (letters : mnemonic'.toLower = mnemonic.toLower)
      (operands : List.Forall₂ Operand.Recased texts texts') :
      Recased (instruction mnemonic texts span) (instruction mnemonic' texts' span)

namespace Cursor

variable {part part' : Part}

/-- What is known of a part of a text that is read: its tokens are spelled as their kinds are, none
is there twice, and no byte is free of one that is not read in any case. -/
structure Part.Stands (source : String) (part : Part) : Prop where
  fit : part.Fits
  spelled : ∀ token ∈ part.tokens, token.kind.Spelled token.text.toList
  nodup : part.tokens.Nodup
  fixed : ∀ token ∈ part.tokens, ¬ part.Caseless token →
    ∀ byte, token.span.Holds byte → ¬ CaseFree source byte

theorem Derivation.stands (d : Derivation tokens) (read : Token.read source = .ok tokens)
    (member : part ∈ d.parts) : part.Stands source := by
  refine ⟨d.fits part member, fun token among => ?_, ?_, fun token => d.fixed read member⟩
  · exact Token.spelled_of_read read (d.mem_tokens member among)
  · have nodup := Token.nodup_of_read read
    rw [← d.whole] at nodup
    exact (List.pairwise_flatMap.mp nodup).1 part member

/-- An operand is recased as a word. -/
theorem Part.Stands.operand {mnemonic operand operand' : Token} {given operands : List Token}
    (stands : (Part.instruction mnemonic given operands).Stands source) (member : operand ∈ operands)
    (recased : operand.Recased (CaseFree source) operand') :
    Operand.Recased operand.text operand'.text := by
  have behind : operand ∈ given := stands.fit.2.subset member
  have within := List.mem_cons_of_mem mnemonic behind
  by_cases caseless : (Part.instruction mnemonic given operands).Caseless operand
  · cases caseless with
    | mnemonic => exact absurd behind (List.nodup_cons.mp stands.nodup).1
    | register _ r named => exact .register recased.letters r named
    | literal _ marked =>
      have spelled := stands.spelled operand within
      rcases marked with binary | hexadecimal
      · exact .literal recased.letters (binary ▸ spelled)
      · exact .literal recased.letters (hexadecimal ▸ spelled)
  · rw [recased.fixed (stands.fixed operand within caseless)]
    exact .same

/-- A part of a text that is recased makes the same statement, but for the case of words. -/
theorem Part.Stands.statement? (stands : part.Stands source)
    (related : part.Related (Token.Recased (CaseFree source)) part') :
    Option.Rel Statement.Recased part.statement? part'.statement? := by
  cases related with
  | newline _ => exact .none
  | @label name colon name' colon' named declared =>
    have same := named.fixed (stands.fixed name List.mem_cons_self nofun)
    simp only [Part.statement?, same, named.span, declared.span]
    exact .some .label
  | @instruction mnemonic mnemonic' given operands given' operands' named arguments =>
    have spans : operands.map Token.span = operands'.map Token.span := by
      rw [← List.forall₂_eq_eq_eq, List.forall₂_map_left_iff, List.forall₂_map_right_iff]
      exact arguments.imp fun _ _ recased => recased.span.symm
    simp only [Part.statement?, ← spans, named.span]
    refine .some (.instruction named.letters ?_)
    rw [List.forall₂_map_left_iff, List.forall₂_map_right_iff]
    refine ((List.forall₂_and_left _ _).mpr ⟨fun _ member => member, arguments⟩).imp ?_
    rintro operand operand' ⟨member, recased⟩
    exact stands.operand member recased

/-- A recased text makes the same statements, but for the case of words. -/
theorem exists_recased_statements (read : Token.read source = .ok tokens) (d : Derivation tokens)
    (recases : Recases source other) :
    ∃ others, Token.read other = .ok others ∧ ∃ e : Derivation others,
      List.Forall₂ Statement.Recased d.statements e.statements := by
  obtain ⟨others, read', related⟩ := Token.exists_recased read recases
  obtain ⟨e, related⟩ := d.exists_related (fun _ _ recased => recased.kind) related
  refine ⟨others, read', e, ?_⟩
  have stand := (List.forall₂_and_left _ _).mpr ⟨fun part member => d.stands read member, related⟩
  exact List.rel_filterMap (fun part part' ⟨stands, related⟩ => stands.statement? related) stand

end Cursor

end QuadAsm
