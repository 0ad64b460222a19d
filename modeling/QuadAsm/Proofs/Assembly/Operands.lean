import QuadAsm.Proofs.Assembly.Located
import QuadAsm.Proofs.Assembly.Writable
import QuadAsm.Proofs.Instruction.Literals
import QuadAsm.Proofs.Statement.Slices

/-! What can be wrong with the operands of a text.

The words that are tokens are operands that can be read: a literal as its value, a name as a
register or a label. `Fault.OfTokens` lists what else can be wrong with a text, and a text that is
not assembled has one of these faults (`Fault.ofTokens_of_assemble`). No word among them is
malformed, though a literal may be too large (`operands_exact`). -/
namespace QuadAsm

variable {source text : String} {tokens given found : List Token} {token : Token} {fault : Fault}
  {d : Diagnostic}

/-! ### Words that are tokens -/

theorem Token.exists_denotes {radix : Radix} (h : read source = .ok tokens)
    (member : token ∈ tokens) (literal : token.kind = .literal radix) :
    ∃ v, Numeral.Denotes radix token.text.toList v := by
  have spelled := spelled_of_read h member
  rw [literal] at spelled
  exact Numeral.exists_denotes spelled

/-- What can stand as an operand is refused only for a literal that fits no register. -/
theorem Operand.refused_of_token (h : Token.read source = .ok tokens) (member : token ∈ tokens)
    (fits : token.kind.isOperand = true) (refused : read token.text = .error fault) :
    fault = .literalOutOfRange token.text ∧ ∃ radix v, token.kind = .literal radix ∧
      Numeral.Denotes radix token.text.toList v ∧ ¬ Numeral.Fits v := by
  cases kind : token.kind with
  | identifier =>
    obtain ⟨operand, accepted⟩ := exists_read_of_isName (Token.isName_of_read h member kind)
    cases refused.symm.trans accepted
  | literal radix =>
    obtain ⟨v, denotes⟩ := Token.exists_denotes h member kind
    by_cases small : Numeral.Fits v
    · obtain ⟨word, rfl⟩ := Numeral.exists_word small
      cases refused.symm.trans (read_of_denotes denotes)
    · have large := refused.symm.trans (read_eq_error denotes small)
      exact ⟨Except.error.inj large, radix, v, rfl, denotes, small⟩
  | _ => simp [kind, Token.Kind.isOperand] at fits

/-! ### Faults of a text -/

/-- The faults that a text of these tokens can have once it is read as them. -/
inductive Fault.OfTokens (tokens : List Token) : Fault → Prop where
  | unexpectedToken (expected found : Token.Kind) : OfTokens tokens (.unexpectedToken expected found)
  | operandExpected (found : Token.Kind) : OfTokens tokens (.operandExpected found)
  | outOfTokens : OfTokens tokens .outOfTokens
  | unknownInstruction (mnemonic : String) : OfTokens tokens (.unknownInstruction mnemonic)
  | operandCount (opcode : Opcode) (found : Nat) : OfTokens tokens (.operandCount opcode found)
  | unknownRegister (name : String) : OfTokens tokens (.unknownRegister name)
  | literalDestination (opcode : Opcode) (value : Int64) :
      OfTokens tokens (.literalDestination opcode value)
  | datumTarget (opcode : Opcode) (datum : Datum) : OfTokens tokens (.datumTarget opcode datum)
  /-- One of the tokens is a literal, and no register can hold what it denotes. -/
  | literalOutOfRange {token : Token} {radix : Radix} {v : Int} (member : token ∈ tokens)
      (literal : token.kind = .literal radix) (denotes : Numeral.Denotes radix token.text.toList v)
      (large : ¬ Numeral.Fits v) : OfTokens tokens (.literalOutOfRange token.text)

namespace Operation

variable {opcode : Opcode} {operand : Operand}

theorem ofTokens_of_asDestination (h : asDestination opcode operand = .error fault) :
    fault.OfTokens tokens := by
  unfold asDestination at h
  split at h <;> cases h
  · exact .literalDestination ..
  · exact .unknownRegister _

theorem ofTokens_of_asSource (h : asSource operand = .error fault) : fault.OfTokens tokens := by
  unfold asSource at h
  split at h <;> cases h
  exact .unknownRegister _

theorem ofTokens_of_asTarget (h : asTarget opcode operand = .error fault) :
    fault.OfTokens tokens := by
  unfold asTarget at h
  split at h <;> cases h
  exact .datumTarget ..

theorem ofTokens_of_ofOperands {operands : List Operand}
    (h : ofOperands opcode operands = .error fault) : fault.OfTokens tokens := by
  unfold ofOperands at h
  split at h
  -- Two operands are checked, or one, from the left.
  case h_1 | h_3 | h_5 =>
    exact (error_of_both h).elim ofTokens_of_asDestination ofTokens_of_asSource
  case h_2 | h_4 => exact ofTokens_of_asDestination (error_of_first h)
  case h_6 => exact (error_of_both h).elim ofTokens_of_asSource ofTokens_of_asSource
  case h_7 => exact ofTokens_of_asTarget (error_of_first h)
  case h_8 =>
    cases h
    exact .operandCount ..

/-- The words of a statement are refused for the mnemonic, for an operand that cannot be read, or
for operands that the mnemonic does not take. -/
theorem ofTokens_of_read {mnemonic : String} {texts : List String}
    (words : ∀ text ∈ texts, ∀ fault, Operand.read text = .error fault → fault.OfTokens tokens)
    (h : read mnemonic texts = .error fault) : fault.OfTokens tokens := by
  rcases error_of_bind h with unknown | ⟨opcode, _, h⟩
  · unfold Opcode.read at unknown
    split at unknown <;> cases unknown
    exact .unknownInstruction _
  · rcases error_of_bind h with unread | ⟨operands, _, unfit⟩
    · obtain ⟨text, member, refused⟩ := refused_of_mapM unread
      exact words text member fault refused
    · exact ofTokens_of_ofOperands unfit

end Operation

namespace Cursor

variable {last : Span} {run : List Token}

theorem Arguments.isOperand (h : Arguments given found) :
    ∀ token ∈ found, token.kind.isOperand = true := by
  cases h with
  | none => nofun
  | some listed =>
    induction listed with
    | one fits => exact List.forall_mem_cons.mpr ⟨fits, nofun⟩
    | more fits _ _ ih => exact List.forall_mem_cons.mpr ⟨fits, ih⟩

theorem ofTokens_of_operands (h : (operands last run).1 = .error d) : d.fault.OfTokens tokens := by
  fun_induction operands last run with
  | case1 =>
    cases h
    exact .outOfTokens
  | case2 | case3 => cases h
  | case4 _ _ _ _ _ _ more ih => exact ih (refused_of_map h)
  | case5 =>
    cases h
    exact .unexpectedToken ..
  | case6 =>
    cases h
    exact .operandExpected _

theorem ofTokens_of_statementOf :
    (statementOf last run).1 = .error d → d.fault.OfTokens tokens := by
  fun_cases statementOf last run with
  | case1 =>
    intro h
    cases h
    exact .outOfTokens
  | case2 | case3 | case4 =>
    intro h
    cases h
  | case5 => exact fun h => ofTokens_of_operands (refused_of_map h)
  | case6 =>
    intro h
    cases h
    exact .unexpectedToken ..

/-- A cursor is refused for the form of a statement only. -/
theorem ofTokens_of_mem (h : .error d ∈ (ofTokens run).remaining) : d.fault.OfTokens tokens := by
  obtain ⟨_, _, _, _, _, refused⟩ := mem_remaining h
  exact ofTokens_of_statementOf (congrArg Prod.fst refused)

end Cursor

/-- The words of a statement among tokens that have been read are refused for what it says. -/
theorem Entry.ofTokens_of_statement {statement : Statement} (read : Token.read source = .ok tokens)
    (member : .ok statement ∈ (Cursor.ofTokens tokens).remaining)
    (h : ofStatement statement = .error d) : d.fault.OfTokens tokens := by
  cases statement with
  | label name span => cases h
  | instruction name texts span =>
    obtain ⟨before, mnemonic, given, found, after, whole, _, arguments, made⟩ :=
      Cursor.instruction_of_mem member
    obtain ⟨-, rfl, -⟩ := Statement.instruction.inj made
    simp only [ofStatement, ofTexts] at h
    split at h
    · cases h
    · rename_i fault refused
      cases h
      rw [Diagnostic.fault_locate]
      refine Operation.ofTokens_of_read (fun text word fault unread => ?_) refused
      obtain ⟨token, operand, rfl⟩ := List.mem_map.mp word
      have among : token ∈ tokens := by
        rw [whole]
        simp [arguments.subset operand]
      obtain ⟨rfl, radix, v, literal, denotes, large⟩ :=
        Operand.refused_of_token read among (arguments.isOperand token operand) unread
      exact .literalOutOfRange among literal denotes large

/-- What is wrong with a text that is read. -/
theorem Fault.ofTokens_of_assemble (read : Token.read source = .ok tokens)
    (h : assemble source = .error d) : d.fault.OfTokens tokens := by
  rw [assemble_of_read read] at h
  obtain ⟨item, member, refused⟩ := Assembly.refused_of_ofItems h
  cases item with
  | ok statement => exact Entry.ofTokens_of_statement read member refused
  | error e =>
    cases refused
    exact Cursor.ofTokens_of_mem member

/-! ### Wording -/

theorem getElem?_one_append {a b : String} {c : Char} (h : a.toList[1]? = some c) :
    (a ++ b).toList[1]? = some c := by
  rw [String.toList_append, List.getElem?_append_left (List.getElem?_eq_some_iff.mp h).1, h]

/-- A mnemonic in capitals goes on with a capital. -/
theorem Opcode.getElem?_one_toUpper (opcode : Opcode) :
    ∃ c, opcode.name.toUpper.toList[1]? = some c ∧ c ≠ 'a' := by
  have capitals : opcode.name.toUpper.toList = opcode.name.toList.map Char.toUpper :=
    String.toList_map
  rw [capitals]
  cases opcode with
  | jump condition => cases condition <;> exact ⟨_, rfl, by decide⟩
  | _ => exact ⟨_, rfl, by decide⟩

/-- The second letter tells the message of a malformed operand from the other messages. -/
theorem Fault.eq_of_message (h : "Malformed operand".toList <+: fault.message.toList) :
    (∃ given, fault = .malformedOperand given) ∨ ∃ kind words, fault = .reported kind words := by
  have malformed : fault.message.toList[1]? = some 'a' := by
    obtain ⟨more, whole⟩ := h
    rw [← whole]
    rfl
  have same {c : Char} (second : fault.message.toList[1]? = some c) : c = 'a' :=
    Option.some.inj (second.symm.trans malformed)
  have step {a b : String} {c : Char} := @getElem?_one_append a b c
  cases fault with
  | malformedOperand given => exact .inl ⟨given, rfl⟩
  | reported kind words => exact .inr ⟨kind, words, rfl⟩
  | operandCount opcode found =>
    obtain ⟨c, second, capital⟩ := opcode.getElem?_one_toUpper
    have second := step (b := " expects ") second
    exact absurd (same (step (step (step second)))) capital
  | outOfTokens => exact absurd (same (c := 'o') rfl) (by decide)
  | operandExpected => exact absurd (same (c := 'x') (step rfl)) (by decide)
  | unknownCharacter | unknownRegister | literalOutOfRange | unknownInstruction | unresolvedLabel =>
    exact absurd (same (c := 'n') (step (step rfl))) (by decide)
  | stepLimit => exact absurd (same (c := 't') (step (step rfl))) (by decide)
  | unexpectedToken => exact absurd (same (c := 'x') (step (step (step rfl)))) (by decide)
  | literalDestination | datumTarget =>
    exact absurd (same (c := 'x') (step (step (step (step rfl))))) (by decide)

theorem Fault.OfTokens.not_malformed (h : fault.OfTokens tokens) :
    ¬ "Malformed operand".toList <+: fault.message.toList := by
  intro words
  rcases eq_of_message words with ⟨given, rfl⟩ | ⟨kind, words, rfl⟩
  · cases h
  · cases h

/-- What can be wrong with an operand of a text. -/
theorem Fault.OfTokens.of_kind (h : fault.OfTokens tokens) (kind : fault.kind = .malformedOperand) :
    (∃ token ∈ tokens, ∃ radix v, token.kind = .literal radix ∧
      Numeral.Denotes radix token.text.toList v ∧ ¬ Numeral.Fits v ∧
        fault = .literalOutOfRange token.text) ∨
      (∃ opcode value, fault = .literalDestination opcode value) ∨
        ∃ opcode datum, fault = .datumTarget opcode datum := by
  cases h with
  | literalOutOfRange member literal denotes large =>
    exact .inl ⟨_, member, _, _, literal, denotes, large, rfl⟩
  | literalDestination opcode value => exact .inr (.inl ⟨opcode, value, rfl⟩)
  | datumTarget opcode datum => exact .inr (.inr ⟨opcode, datum, rfl⟩)
  | _ => cases kind

/-! ### Texts -/

/-- What is wrong with a text is a character, or what can be wrong with the tokens it is read as. -/
theorem Fault.exists_ofTokens (h : assemble source = .error d) :
    (∃ c, d.fault = .unknownCharacter c) ∨
      ∃ tokens, Token.read source = .ok tokens ∧ d.fault.OfTokens tokens := by
  cases read : Token.read source with
  | error e =>
    rw [assemble_of_unread read] at h
    cases h
    obtain ⟨c, span, rfl, _⟩ := Token.onLine_of_unread read
    exact .inl ⟨c, rfl⟩
  | ok tokens => exact .inr ⟨tokens, rfl, ofTokens_of_assemble read h⟩

theorem not_malformed_of_assemble (h : assemble source = .error d) :
    ¬ "Malformed operand".toList <+: d.message.toList := by
  rcases Fault.exists_ofTokens h with ⟨c, fault⟩ | ⟨tokens, _, fault⟩
  · rw [Diagnostic.message, fault]
    intro words
    rcases Fault.eq_of_message words with ⟨_, same⟩ | ⟨_, _, same⟩
    · cases same
    · cases same
  · exact fault.not_malformed

/-- **Tokens that are operands can be read.** A literal of a text denotes one integer, and is read as
it where a register can hold it; where none can, the literal is refused as out of range, and for
nothing else. A name is the register that it names in any case, or else a label as it is written.
So a text that is not assembled is never refused for a word that is malformed: what is said of an
operand is that a literal is out of range, and it is, or that a literal is a destination, or that a
jump's target is no label. -/
theorem operands_exact (source : String) :
    (∀ tokens, Token.read source = .ok tokens → ∀ token ∈ tokens,
      (∀ radix, token.kind = .literal radix →
        ∃ v, (∀ u, Numeral.Denotes radix token.text.toList u ↔ u = v) ∧
          (Numeral.Fits v → ∃ word : Int64, word.toInt = v ∧
            Numeral.read token.text = .ok (some word) ∧
              Operand.read token.text = .ok (.literal word)) ∧
          (¬ Numeral.Fits v → Numeral.read token.text = .error (.literalOutOfRange token.text))) ∧
      (token.kind = .identifier →
        (∀ r : Register, token.text.toLower = r.name →
          Operand.read token.text = .ok (.register r)) ∧
        ((∀ r : Register, token.text.toLower ≠ r.name) →
          Operand.read token.text = .ok (.label token.text)))) ∧
    ∀ d, assemble source = .error d →
      ¬ "Malformed operand".toList <+: d.message.toList ∧
      (d.kind = .malformedOperand →
        (∃ tokens, Token.read source = .ok tokens ∧ ∃ token ∈ tokens, ∃ radix v,
          token.kind = .literal radix ∧ Numeral.Denotes radix token.text.toList v ∧
            ¬ Numeral.Fits v ∧ d.fault = .literalOutOfRange token.text) ∨
        (∃ opcode value, d.fault = .literalDestination opcode value) ∨
        ∃ opcode datum, d.fault = .datumTarget opcode datum) := by
  refine ⟨fun tokens read token member => ⟨fun radix literal => ?_, fun named => ?_⟩,
    fun d refused => ⟨not_malformed_of_assemble refused, fun kind => ?_⟩⟩
  · obtain ⟨v, denotes⟩ := Token.exists_denotes read member literal
    refine ⟨v, fun u => ⟨fun other => other.unique denotes, ?_⟩, fun small => ?_,
      Numeral.read_eq_error denotes⟩
    · rintro rfl
      exact denotes
    obtain ⟨word, rfl⟩ := Numeral.exists_word small
    exact ⟨word, rfl, Numeral.read_of_denotes denotes, Operand.read_of_denotes denotes⟩
  · have name := Token.isName_of_read read member named
    exact ⟨fun r => Operand.read_of_toLower, Operand.read_of_isName name⟩
  · rcases Fault.exists_ofTokens refused with ⟨c, fault⟩ | ⟨tokens, read, fault⟩
    · rw [Diagnostic.kind, fault] at kind
      cases kind
    · exact (fault.of_kind kind).imp (fun large => ⟨tokens, read, large⟩) id

end QuadAsm
