import QuadAsm.Proofs.Instruction.Integers

/-! What the words of an instruction are checked for.

The instructions that can be written are listed by `Operation.Legal`, over operands that words stand
for (`Operand.Word`). Every other list of words has a first fault (`FirstFault`): the checks come in
a fixed order, and all before the one that fails have passed. What is read is what is legal, what is
refused is refused for its first fault (`Operation.read_eq_ok_iff`, `Operation.read_eq_error_iff`),
so every list of words is the one or has the other. -/
namespace QuadAsm

variable {text mnemonic : String} {texts : List String} {operand : Operand} {given : List Operand}
  {opcode : Opcode} {operation : Operation} {fault : Fault}

/-! ### Words -/

namespace Operand

/-- What the word is as an operand: the register that it names in any case, the integer that it
means where a register can hold it, or itself, a name that no register has. -/
inductive Word : String → Operand → Prop where
  | register {text : String} {r : Register} (named : text.toLower = r.name) :
      Word text (.register r)
  | literal {text : String} {word : Int64} (means : Numeral.Means text.toList word.toInt) :
      Word text (.literal word)
  | label {text : String} (name : Token.Kind.identifier.Spelled text.toList)
      (other : ∀ r : Register, text.toLower ≠ r.name) : Word text (.label text)

/-- The word is no operand: an integer that no register holds, or neither integer nor name. -/
inductive Unreadable : String → Fault → Prop where
  | large {text : String} {v : Int} (means : Numeral.Means text.toList v)
      (large : ¬ Numeral.Fits v) : Unreadable text (.literalOutOfRange text)
  | shapeless {text : String} (meaningless : ∀ v, ¬ Numeral.Means text.toList v)
      (nameless : ¬ Token.Kind.identifier.Spelled text.toList) :
      Unreadable text (.malformedOperand text)

end Operand

/-- No register's name means an integer. -/
theorem Numeral.Means.ofName? {v : Int} (means : Means text.toList v) :
    Register.ofName? text = none := by
  generalize split : text.toList = w at means
  cases means with
  | unsigned digits =>
    have denotes := Denotes.plain digits
    rw [← split] at denotes
    exact denotes.ofName?
  | plus => exact Register.ofName?_eq_none split (by decide)
  | minus => exact Register.ofName?_eq_none split (by decide)

namespace Operand

theorem read_eq_ok_iff : read text = .ok operand ↔ Word text operand := by
  constructor
  · intro accepted
    unfold read at accepted
    split at accepted
    · rename_i r named
      cases accepted
      exact .register (Register.ofName?_eq_some_iff.mp named)
    · rename_i unnamed
      split at accepted
      · cases accepted
      · rename_i word worth
        cases accepted
        exact .literal (Numeral.read_eq_some_iff_means.mp worth)
      · split at accepted
        · rename_i name
          cases accepted
          refine .label (Text.isName_iff_spelled.mp name) fun r named => ?_
          rw [Register.ofName?_eq_some_iff.mpr named] at unnamed
          cases unnamed
        · cases accepted
  · intro word
    cases word with
    | register named => exact read_of_toLower named
    | literal means => exact read_of_value? means.ofName? (Numeral.value?_eq_some_iff_means.mpr means)
    | label name other => exact read_of_isName (Text.isName_iff_spelled.mpr name) other

theorem read_eq_error_iff : read text = .error fault ↔ Unreadable text fault := by
  constructor
  · intro refused
    unfold read at refused
    split at refused
    · cases refused
    · split at refused
      · rename_i worth
        cases refused
        obtain ⟨rfl, v, means, large⟩ := Numeral.read_eq_error_iff.mp worth
        exact .large means large
      · cases refused
      · rename_i worth
        split at refused
        · cases refused
        · rename_i nameless
          cases refused
          refine .shapeless (Numeral.read_eq_none_iff.mp worth) fun name => ?_
          exact nameless (Text.isName_iff_spelled.mpr name)
  · intro unreadable
    cases unreadable with
    | large means large =>
      rw [read, means.ofName?]
      simp only [Numeral.read_eq_error_iff.mpr ⟨rfl, _, means, large⟩]
    | shapeless meaningless nameless =>
      have nameless : Text.isName text.toList = false :=
        Bool.eq_false_iff.mpr (mt Text.isName_iff_spelled.mp nameless)
      have unnamed : Register.ofName? text = none := by
        apply Option.eq_none_iff_forall_ne_some.mpr
        intro r named
        -- A register's name is spelled as a name, and so is the word.
        have lower := Register.isName_name r
        rw [← Register.ofName?_eq_some_iff.mp named, Text.isName_toLower, nameless] at lower
        cases lower
      rw [read, unnamed]
      simp [Numeral.read_eq_none_iff.mpr meaningless, nameless]

theorem Unreadable.kind (unreadable : Unreadable text fault) : fault.kind = .malformedOperand := by
  cases unreadable <;> rfl

end Operand

/-! ### Places -/

/-- What an operand is for. -/
inductive Place where
  | destination
  | source
  | target

/-- The places of an opcode's operands, from the left. -/
def Opcode.places : Opcode → List Place
  | mov | inc | dec => [.destination, .source]
  | cmp => [.source, .source]
  | jump _ => [.target]

/-- The opcode takes this many operands. -/
def Opcode.Takes (opcode : Opcode) (count : Nat) : Prop :=
  opcode.minOperands ≤ count ∧ count ≤ opcode.maxOperands

namespace Place

/-- A register can be a destination, a register or a literal a source, a label a target. -/
inductive Fits : Place → Operand → Prop where
  | destination (r : Register) : Fits destination (.register r)
  | source (d : Datum) : Fits source (.datum d)
  | target (name : String) : Fits target (.label name)

/-- What is said of an operand that does not fit. -/
inductive Misfit (opcode : Opcode) : Place → Operand → Fault.Kind → Fault → Prop where
  | destinationLabel (name : String) :
      Misfit opcode destination (.label name) .unknownRegister (.unknownRegister name)
  | sourceLabel (name : String) :
      Misfit opcode source (.label name) .unknownRegister (.unknownRegister name)
  | destinationLiteral (value : Int64) :
      Misfit opcode destination (.literal value) .malformedOperand (.literalDestination opcode value)
  | targetDatum (d : Datum) :
      Misfit opcode target (.datum d) .malformedOperand (.datumTarget opcode d)

/-- All operands fit before one that does not. -/
inductive FirstMisfit (opcode : Opcode) : List Place → List Operand → Fault.Kind → Fault → Prop where
  | here {place : Place} {places : List Place} {operand : Operand} {operands : List Operand}
      {kind : Fault.Kind} {fault : Fault} (misfit : Misfit opcode place operand kind fault) :
      FirstMisfit opcode (place :: places) (operand :: operands) kind fault
  | later {place : Place} {places : List Place} {operand : Operand} {operands : List Operand}
      {kind : Fault.Kind} {fault : Fault} (fits : Fits place operand)
      (others : FirstMisfit opcode places operands kind fault) :
      FirstMisfit opcode (place :: places) (operand :: operands) kind fault

variable {opcode : Opcode} {place : Place} {places : List Place} {operand : Operand}
  {operands : List Operand} {kind other : Fault.Kind} {fault fault' : Fault}

theorem Misfit.not_fits (misfit : Misfit opcode place operand kind fault) : ¬ place.Fits operand := by
  cases misfit <;> exact nofun

theorem Misfit.unique (misfit : Misfit opcode place operand kind fault)
    (misfit' : Misfit opcode place operand other fault') : fault = fault' := by
  cases misfit <;> cases misfit' <;> rfl

theorem Misfit.kind_eq (misfit : Misfit opcode place operand kind fault) : fault.kind = kind := by
  cases misfit <;> rfl

theorem FirstMisfit.kind_eq (first : FirstMisfit opcode places operands kind fault) :
    fault.kind = kind := by
  induction first with
  | here misfit => exact misfit.kind_eq
  | later _ _ ih => exact ih

theorem firstMisfit_cons_iff : FirstMisfit opcode (place :: places) (operand :: operands) kind fault ↔
    Misfit opcode place operand kind fault ∨
      place.Fits operand ∧ FirstMisfit opcode places operands kind fault := by
  constructor
  · intro first
    cases first with
    | here misfit => exact .inl misfit
    | later fits others => exact .inr ⟨fits, others⟩
  · rintro (misfit | ⟨fits, others⟩)
    · exact .here misfit
    · exact .later fits others

theorem not_firstMisfit_nil : ¬ FirstMisfit opcode places [] kind fault := nofun

/-- The call looks whether an operand fits its place. -/
inductive Checks (opcode : Opcode) (place : Place) (operand : Operand) {α : Type} :
    Except Fault α → Prop where
  | fits {a : α} (fits : place.Fits operand) : Checks opcode place operand (.ok a)
  | misfit {kind : Fault.Kind} {fault : Fault} (misfit : Misfit opcode place operand kind fault) :
      Checks opcode place operand (.error fault)

variable {α β γ : Type} {call : Except Fault α} {next : Except Fault β}

theorem Checks.ok_iff (checks : Checks opcode place operand call) :
    (∃ a, call = .ok a) ↔ place.Fits operand := by
  cases checks with
  | fits fits => exact iff_of_true ⟨_, rfl⟩ fits
  | misfit misfit => exact iff_of_false nofun misfit.not_fits

theorem Checks.error_iff (checks : Checks opcode place operand call) :
    call = .error fault ↔ ∃ kind, Misfit opcode place operand kind fault := by
  cases checks with
  | fits fits =>
    refine iff_of_false nofun ?_
    rintro ⟨_, misfit⟩
    exact misfit.not_fits fits
  | misfit misfit =>
    constructor
    · rintro ⟨⟩
      exact ⟨_, misfit⟩
    · rintro ⟨_, misfit'⟩
      rw [misfit.unique misfit']

/-- An opcode with one operand looks at it alone. -/
theorem Checks.one (checks : Checks opcode place operand call) (made : α → γ) :
    (call >>= fun a => .ok (made a)) = .error fault ↔
      ∃ kind, FirstMisfit opcode (place :: places) [operand] kind fault := by
  simp only [bind_eq_error_iff, checks.error_iff, firstMisfit_cons_iff, not_firstMisfit_nil,
    reduceCtorEq, and_false, exists_false, or_false]

/-- An opcode with two operands looks at the second one when the first one fits. -/
theorem Checks.two {later : Place} {second : Operand} (checks : Checks opcode place operand call)
    (checks' : Checks opcode later second next) (made : α → β → γ) :
    (call >>= fun a => next >>= fun b => .ok (made a b)) = .error fault ↔
      ∃ kind, FirstMisfit opcode [place, later] [operand, second] kind fault := by
  simp only [bind_eq_error_iff, checks.error_iff, checks'.error_iff, firstMisfit_cons_iff,
    not_firstMisfit_nil, reduceCtorEq, and_false, exists_false, or_false, exists_and_right,
    checks.ok_iff, exists_or, exists_and_left]

end Place

/-! ### Operands -/

namespace Operation

open Place (Checks)

/-- The operations that an opcode and operands can make. -/
inductive Legal : Opcode → List Operand → Operation → Prop where
  | mov (r : Register) (d : Datum) : Legal .mov [.register r, .datum d] (mov r d)
  | inc (r : Register) (d : Datum) : Legal .inc [.register r, .datum d] (inc r d)
  | incByOne (r : Register) : Legal .inc [.register r] (inc r (.literal 1))
  | dec (r : Register) (d : Datum) : Legal .dec [.register r, .datum d] (dec r d)
  | decByOne (r : Register) : Legal .dec [.register r] (dec r (.literal 1))
  | cmp (a b : Datum) : Legal .cmp [.datum a, .datum b] (cmp a b)
  | jump (condition : Condition) (name : String) :
      Legal (.jump condition) [.label name] (jump condition name)

theorem checks_asDestination (opcode : Opcode) (operand : Operand) :
    Checks opcode .destination operand (asDestination opcode operand) := by
  obtain (r | value) | name := operand
  · exact .fits (.destination r)
  · exact .misfit (.destinationLiteral value)
  · exact .misfit (.destinationLabel name)

theorem checks_asSource (opcode : Opcode) (operand : Operand) :
    Checks opcode .source operand (asSource operand) := by
  obtain d | name := operand
  · exact .fits (.source d)
  · exact .misfit (.sourceLabel name)

theorem checks_asTarget (opcode : Opcode) (operand : Operand) :
    Checks opcode .target operand (asTarget opcode operand) := by
  obtain d | name := operand
  · exact .misfit (.targetDatum d)
  · exact .fits (.target name)

theorem eq_register_of_asDestination {r : Register} (h : asDestination opcode operand = .ok r) :
    operand = .register r := by
  obtain (r' | value) | name := operand <;> cases h
  rfl

theorem eq_datum_of_asSource {d : Datum} (h : asSource operand = .ok d) : operand = .datum d := by
  obtain d' | name := operand <;> cases h
  rfl

theorem eq_label_of_asTarget {name : String} (h : asTarget opcode operand = .ok name) :
    operand = .label name := by
  obtain d | name' := operand <;> cases h
  rfl

/-- What is made of operands is legal, and all that is legal is made. -/
theorem ofOperands_eq_ok_iff : ofOperands opcode given = .ok operation ↔
    Legal opcode given operation := by
  constructor
  · intro made
    unfold ofOperands at made
    split at made
    case h_1 | h_3 | h_5 =>
      obtain ⟨r, destination, made⟩ := ok_of_bind made
      obtain ⟨d, source, made⟩ := ok_of_bind made
      cases made
      rw [eq_register_of_asDestination destination, eq_datum_of_asSource source]
      constructor
    case h_2 | h_4 =>
      obtain ⟨r, destination, made⟩ := ok_of_bind made
      cases made
      rw [eq_register_of_asDestination destination]
      constructor
    case h_6 =>
      obtain ⟨a, left, made⟩ := ok_of_bind made
      obtain ⟨b, right, made⟩ := ok_of_bind made
      cases made
      rw [eq_datum_of_asSource left, eq_datum_of_asSource right]
      constructor
    case h_7 =>
      obtain ⟨name, target, made⟩ := ok_of_bind made
      cases made
      rw [eq_label_of_asTarget target]
      constructor
    case h_8 => cases made
  · intro legal
    cases legal <;> rfl

/-- Operands are refused for their count, or else for the first one that does not fit. -/
theorem ofOperands_eq_error_iff : ofOperands opcode given = .error fault ↔
    ¬ opcode.Takes given.length ∧ fault = .operandCount opcode given.length ∨
      opcode.Takes given.length ∧
        ∃ kind, Place.FirstMisfit opcode opcode.places given kind fault := by
  -- Where the count is right, nothing is said of it.
  have counted {right said other : Prop} (h : right) : other ↔ ¬ right ∧ said ∨ right ∧ other := by
    simp [h]
  have takes (opcode : Opcode) (count : Nat) : opcode.Takes count ↔
      opcode.minOperands ≤ count ∧ count ≤ opcode.maxOperands := Iff.rfl
  unfold ofOperands
  split
  case h_1 a b | h_3 a b | h_5 a b =>
    refine ((checks_asDestination _ a).two (checks_asSource _ b) _).trans (counted ?_)
    simp [takes, Opcode.minOperands, Opcode.maxOperands]
  case h_2 a | h_4 a =>
    refine ((checks_asDestination _ a).one _).trans (counted ?_)
    simp [takes, Opcode.minOperands, Opcode.maxOperands]
  case h_6 a b =>
    refine ((checks_asSource _ a).two (checks_asSource _ b) _).trans (counted ?_)
    simp [takes, Opcode.minOperands, Opcode.maxOperands]
  case h_7 condition a =>
    refine ((checks_asTarget _ a).one _).trans (counted ?_)
    simp [takes, Opcode.minOperands, Opcode.maxOperands]
  case h_8 =>
    have miscounted : ¬ opcode.Takes given.length := by
      rw [takes]
      obtain _ | ⟨a, _ | ⟨b, _ | ⟨c, given⟩⟩⟩ := given <;> cases opcode <;>
        simp_all [Opcode.minOperands, Opcode.maxOperands]
    rw [and_iff_right miscounted, or_iff_left fun h => miscounted h.1]
    exact ⟨fun h => (Except.error.inj h).symm, fun h => h ▸ rfl⟩

end Operation

/-! ### All words -/

/-- The first of the checks that fails: is the mnemonic an opcode's name in any case, is every word
an operand, does the opcode take so many, does each fit its place. -/
inductive FirstFault (mnemonic : String) (texts : List String) : Fault.Kind → Fault → Prop where
  | mnemonic (unknown : ∀ opcode : Opcode, mnemonic.toLower ≠ opcode.name) :
      FirstFault mnemonic texts .malformedInstruction (.unknownInstruction mnemonic)
  | word {opcode : Opcode} {before after : List String} {text : String} {fault : Fault}
      (named : mnemonic.toLower = opcode.name) (split : texts = before ++ text :: after)
      (readable : ∀ earlier ∈ before, ∃ operand, Operand.Word earlier operand)
      (unreadable : Operand.Unreadable text fault) :
      FirstFault mnemonic texts .malformedOperand fault
  | count {opcode : Opcode} {given : List Operand} (named : mnemonic.toLower = opcode.name)
      (words : List.Forall₂ Operand.Word texts given) (other : ¬ opcode.Takes texts.length) :
      FirstFault mnemonic texts .malformedInstruction (.operandCount opcode texts.length)
  | operand {opcode : Opcode} {given : List Operand} {kind : Fault.Kind} {fault : Fault}
      (named : mnemonic.toLower = opcode.name) (words : List.Forall₂ Operand.Word texts given)
      (takes : opcode.Takes texts.length)
      (first : Place.FirstMisfit opcode opcode.places given kind fault) :
      FirstFault mnemonic texts kind fault

theorem FirstFault.kind_eq {kind : Fault.Kind} (first : FirstFault mnemonic texts kind fault) :
    fault.kind = kind := by
  cases first with
  | mnemonic | count => rfl
  | word _ _ _ unreadable => exact unreadable.kind
  | operand _ _ _ first => exact first.kind_eq

theorem Opcode.read_eq_ok_iff : read mnemonic = .ok opcode ↔ mnemonic.toLower = opcode.name := by
  rw [← ofName?_eq_some_iff, read]
  cases ofName? mnemonic <;> simp

theorem Opcode.read_eq_error_iff : read mnemonic = .error fault ↔
    (∀ opcode : Opcode, mnemonic.toLower ≠ opcode.name) ∧ fault = .unknownInstruction mnemonic := by
  simp only [ne_eq, ← ofName?_eq_some_iff, ← Option.eq_none_iff_forall_ne_some]
  rw [read]
  cases ofName? mnemonic <;> simp [eq_comm]

namespace Operation

theorem mapM_read_eq_ok_iff : texts.mapM Operand.read = .ok given ↔
    List.Forall₂ Operand.Word texts given := by
  simp only [mapM_eq_ok_iff, Operand.read_eq_ok_iff]

/-- The words of a legal instruction are read as it, and no others are. -/
theorem read_eq_ok_iff : read mnemonic texts = .ok operation ↔ ∃ opcode given,
    mnemonic.toLower = opcode.name ∧ List.Forall₂ Operand.Word texts given ∧
      Legal opcode given operation := by
  simp only [read, bind_eq_ok_iff, Opcode.read_eq_ok_iff, mapM_read_eq_ok_iff, ofOperands_eq_ok_iff,
    exists_and_left]

/-- Where the mnemonic is known and each word is an operand, what is left to look at is these. -/
theorem read_of_words (named : mnemonic.toLower = opcode.name)
    (words : List.Forall₂ Operand.Word texts given) :
    read mnemonic texts = ofOperands opcode given := by
  rw [read, Opcode.read_eq_ok_iff.mpr named, mapM_read_eq_ok_iff.mpr words]
  rfl

/-- Words that are refused are refused for their first fault. -/
theorem read_eq_error_iff : read mnemonic texts = .error fault ↔
    ∃ kind, FirstFault mnemonic texts kind fault := by
  constructor
  · intro refused
    obtain unnamed | ⟨opcode, named, refused⟩ := error_of_bind refused
    · obtain ⟨unknown, rfl⟩ := Opcode.read_eq_error_iff.mp unnamed
      exact ⟨_, .mnemonic unknown⟩
    have named := Opcode.read_eq_ok_iff.mp named
    obtain unread | ⟨given, words, refused⟩ := error_of_bind refused
    · obtain ⟨before, text, after, split, readable, unreadable⟩ := mapM_eq_error_iff.mp unread
      simp only [Operand.read_eq_ok_iff] at readable
      exact ⟨_, .word named split readable (Operand.read_eq_error_iff.mp unreadable)⟩
    have words := mapM_read_eq_ok_iff.mp words
    obtain ⟨other, rfl⟩ | ⟨takes, kind, first⟩ := ofOperands_eq_error_iff.mp refused
    · rw [← words.length_eq] at other ⊢
      exact ⟨_, .count named words other⟩
    · rw [← words.length_eq] at takes
      exact ⟨kind, .operand named words takes first⟩
  · rintro ⟨kind, first⟩
    cases first with
    | mnemonic unknown =>
      exact bind_eq_error_iff.mpr (.inl (Opcode.read_eq_error_iff.mpr ⟨unknown, rfl⟩))
    | word named split readable unreadable =>
      simp only [← Operand.read_eq_ok_iff] at readable
      have unread := mapM_eq_error_iff.mpr
        ⟨_, _, _, split, readable, Operand.read_eq_error_iff.mpr unreadable⟩
      exact bind_eq_error_iff.mpr (.inr ⟨_, Opcode.read_eq_ok_iff.mpr named,
        bind_eq_error_iff.mpr (.inl unread)⟩)
    | count named words other =>
      rw [words.length_eq] at other ⊢
      rw [read_of_words named words]
      exact ofOperands_eq_error_iff.mpr (.inl ⟨other, rfl⟩)
    | operand named words takes first =>
      rw [words.length_eq] at takes
      rw [read_of_words named words]
      exact ofOperands_eq_error_iff.mpr (.inr ⟨takes, kind, first⟩)

/-- Both operands are wrong, and the first one is what is said. -/
example : read "MOV" ["5", "x"] = .error (.literalDestination .mov 5) := by cbv

end Operation
end QuadAsm
