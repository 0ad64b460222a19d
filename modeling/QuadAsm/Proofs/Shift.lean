import QuadAsm.Program.Builder

/-! What is read, moved along a text.

A text that stands further on in a larger one has everything it is read as further on by as many
bytes, and nothing else about it changes. `shift` moves one thing; `moved` moves the outcome of
reading one, whichever it is. -/
namespace QuadAsm

/-- The span so many bytes further on. -/
def Span.shift (n : Nat) (span : Span) : Span := ⟨span.start + n, span.stop + n⟩

def Token.shift (n : Nat) (token : Token) : Token := { token with span := token.span.shift n }

def Statement.shift (n : Nat) : Statement → Statement
  | label name span => label name (span.shift n)
  | instruction mnemonic operands span => instruction mnemonic operands (span.shift n)

def Instruction.shift (n : Nat) (i : Instruction) : Instruction :=
  { i with span := i.span.shift n }

def Entry.shift (n : Nat) : Entry → Entry
  | label name => label name
  | instruction i => instruction (i.shift n)

def Diagnostic.shift (n : Nat) (d : Diagnostic) : Diagnostic :=
  { d with span? := d.span?.map (Span.shift n) }

/-- The outcome so many bytes further on, where `f` moves what is read. -/
def moved {α β : Type} (n : Nat) (f : α → β) : Except Diagnostic α → Except Diagnostic β
  | .ok a => .ok (f a)
  | .error d => .error (d.shift n)

variable {n : Nat}

theorem Span.shift_cover (a b : Span) : (a.cover b).shift n = (a.shift n).cover (b.shift n) := by
  simp [shift, cover, Nat.add_min_add_right, Nat.add_max_add_right]

@[simp] theorem Token.kind_shift (token : Token) : (token.shift n).kind = token.kind := rfl

@[simp] theorem Token.text_shift (token : Token) : (token.shift n).text = token.text := rfl

@[simp] theorem Token.span_shift (token : Token) : (token.shift n).span = token.span.shift n := rfl

theorem Diagnostic.shift_at (fault : Fault) (span : Span) :
    (fault.at span).shift n = fault.at (span.shift n) := rfl

/-- A place that ends somewhere behind the start of the text is not nowhere. -/
theorem Span.ne_empty {span : Span} (h : 0 < span.stop) : span ≠ .empty := by
  rintro rfl
  cases h

/-- A fault that is located moves with its place. -/
theorem Diagnostic.shift_locate (fault : Fault) {span : Span} (h : 0 < span.stop) :
    (fault.unplaced.locate span).shift n = fault.unplaced.locate (span.shift n) := by
  have further : 0 < (span.shift n).stop := Nat.add_pos_left h n
  rw [locate_unplaced _ (Span.ne_empty h), locate_unplaced _ (Span.ne_empty further), shift_at]

/-- A statement further on asks for the entry further on. -/
theorem Entry.ofStatement_shift {s : Statement} (h : 0 < s.span.stop) :
    ofStatement (s.shift n) = moved n (Entry.shift n) (ofStatement s) := by
  cases s with
  | label name span => rfl
  | instruction mnemonic operands span =>
    simp only [Statement.shift, ofStatement, ofTexts]
    cases Operation.read mnemonic operands with
    | ok operation => rfl
    | error fault => exact congrArg Except.error (Diagnostic.shift_locate fault h).symm

end QuadAsm
