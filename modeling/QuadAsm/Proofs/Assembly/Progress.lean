import QuadAsm.Proofs.Program.Phrase
import QuadAsm.Proofs.Statement.Lines

/-! Reading goes on, and ends.

Two calls move a cursor: one asks for the statement that starts here, one for the next statement,
newlines skipped. Either takes it from a place in the token list to one that is not before it
(`call_past`), and further on when a statement is the answer; so the places only grow, however the
calls are mixed. After a failure the second has nothing more to say (`next?_spent`). So asking it
again and again yields as many items as there are tokens at most, with a fault only at the end
(`remaining_length_le`, `exists_statements`), and assembling is a fold over these items
(`ofCursor_eq_foldlM`). `reading_progresses` says all of this. -/
namespace QuadAsm

namespace Cursor

/-! ### Calls -/

/-- What can be asked of a cursor. -/
inductive Call where
  /-- The statement that starts here. -/
  | statement
  /-- The next statement, if there is another. -/
  | next
  deriving DecidableEq, Repr

/-- The answer to a call, and the cursor it leaves. -/
def call (c : Cursor) : Call → Option (Except Diagnostic Statement) × Cursor
  | .statement => (some c.statement.1, c.statement.2)
  | .next => c.next?

/-- The answers to calls made one after the other, and the cursor they leave. -/
def callAll (c : Cursor) : List Call → List (Option (Except Diagnostic Statement)) × Cursor
  | [] => ([], c)
  | asked :: calls =>
    let rest := (c.call asked).2.callAll calls
    ((c.call asked).1 :: rest.1, rest.2)

variable {c : Cursor} {tokens : List Token} {d : Diagnostic}

theorem callAll_append (c : Cursor) (before after : List Call) :
    c.callAll (before ++ after) =
      ((c.callAll before).1 ++ ((c.callAll before).2.callAll after).1,
        ((c.callAll before).2.callAll after).2) := by
  induction before generalizing c with
  | nil => rfl
  | cons asked before ih => simp only [List.cons_append, callAll, ih]

/-! ### Places in a token list -/

/-- The cursor over a token list that stands behind so many of its tokens. -/
def past (tokens : List Token) (index : Nat) : Cursor :=
  { ofTokens tokens with rest := tokens.drop index }

/-- The cursor has nothing to yield, or it yields a statement and goes on, or it yields a fault and
has nothing left. -/
theorem next?_cases (c : Cursor) :
    c.next? = (none, ⟨[], c.last⟩) ∨
      (∃ statement rest, c.next? = (some (.ok statement), ⟨rest, c.last⟩) ∧ rest <:+ c.rest ∧
        rest.length < c.rest.length) ∨
      ∃ d, c.next? = (some (.error d), ⟨[], c.last⟩) := by
  have skipped : c.skipNewlines.rest <:+ c.rest := List.dropWhile_suffix _
  by_cases ended : c.skipNewlines.rest = []
  · have left : c.skipNewlines = ⟨[], c.last⟩ := by rw [← ended]; rfl
    exact .inl (by simp [next?, left, atEnd])
  · have behind := (statementOf_suffix c.last c.skipNewlines.rest).trans skipped
    have moved := Nat.lt_of_lt_of_le (statementOf_length_lt c.last ended) skipped.length_le
    have last : c.skipNewlines.last = c.last := rfl
    rw [next?]
    simp only [atEnd, List.isEmpty_iff, ended, if_false, Cursor.statement, last]
    cases read : statementOf c.last c.skipNewlines.rest with
    | mk result rest =>
      rw [read] at behind moved
      cases result with
      | ok statement => exact .inr (.inl ⟨statement, rest, rfl, behind, moved⟩)
      | error d => exact .inr (.inr ⟨d, rfl⟩)

/-- A call leaves the cursor among its tokens, and further on when it is answered a statement. -/
theorem call_suffix (c : Cursor) (asked : Call) :
    (c.call asked).2.last = c.last ∧ (c.call asked).2.rest <:+ c.rest ∧
      ∀ statement, (c.call asked).1 = some (.ok statement) →
        (c.call asked).2.rest.length < c.rest.length := by
  cases asked with
  | statement =>
    refine ⟨rfl, statementOf_suffix c.last c.rest, fun statement answered => ?_⟩
    refine statement_length_lt fun ended => ?_
    simp [call, Cursor.statement, ended, statementOf] at answered
  | next =>
    rw [call]
    rcases next?_cases c with yields | ⟨statement, rest, yields, behind, moved⟩ | ⟨d, yields⟩
    · rw [yields]
      exact ⟨rfl, List.nil_suffix, by simp⟩
    · rw [yields]
      exact ⟨rfl, behind, fun _ _ => moved⟩
    · rw [yields]
      exact ⟨rfl, List.nil_suffix, by simp⟩

/-- From one place in a token list a call leads to one that is not before it, nor behind the end. -/
theorem call_past {index : Nat} (inside : index ≤ tokens.length) (asked : Call) :
    ∃ next, index ≤ next ∧ next ≤ tokens.length ∧
      ((past tokens index).call asked).2 = past tokens next ∧
      ∀ statement, ((past tokens index).call asked).1 = some (.ok statement) → index < next := by
  obtain ⟨last, behind, further⟩ := call_suffix (past tokens index) asked
  have whole := behind.trans (List.drop_suffix index tokens)
  have length : (past tokens index).rest.length = tokens.length - index := List.length_drop
  rw [length] at further
  have shorter := behind.length_le
  rw [length] at shorter
  refine ⟨tokens.length - ((past tokens index).call asked).2.rest.length, by omega, by omega,
    ?_, ?_⟩
  · generalize ((past tokens index).call asked).2 = after at last whole
    rw [past, ← List.suffix_iff_eq_drop.mp whole]
    exact congrArg (Cursor.mk after.rest) last
  · intro statement answered
    have moved := further statement answered
    omega

/-- Wherever calls lead to is a place in the token list. -/
theorem callAll_past {index : Nat} (inside : index ≤ tokens.length) (calls : List Call) :
    ∃ next, index ≤ next ∧ next ≤ tokens.length ∧
      ((past tokens index).callAll calls).2 = past tokens next := by
  induction calls generalizing index with
  | nil => exact ⟨index, Nat.le_refl _, inside, rfl⟩
  | cons asked calls ih =>
    obtain ⟨middle, low, high, here, _⟩ := call_past inside asked
    obtain ⟨next, further, inside, there⟩ := ih high
    refine ⟨next, Nat.le_trans low further, inside, ?_⟩
    rw [callAll, here, there]

/-! ### After a failure -/

theorem next?_of_spent (spent : c.rest = []) : c.next? = (none, c) := by
  obtain ⟨_, last⟩ := c
  cases spent
  rfl

/-- Nothing that is asked of a cursor at the end gets it away from there. -/
theorem callAll_of_spent (spent : c.rest = []) (calls : List Call) :
    (c.callAll calls).2.rest = [] := by
  induction calls generalizing c with
  | nil => exact spent
  | cons asked calls ih =>
    refine ih (List.suffix_nil.mp ?_)
    rw [← spent]
    exact (call_suffix c asked).2.1

/-- After a failure there is no next statement, whatever else is asked in between. -/
theorem next?_spent (h : c.next?.1 = some (.error d)) (calls : List Call) :
    (c.next?.2.callAll calls).2.next?.1 = none := by
  have spent : c.next?.2.rest = [] := by
    rcases next?_cases c with yields | ⟨_, _, yields, _⟩ | ⟨_, yields⟩
    · simp [yields] at h
    · simp [yields] at h
    · rw [yields]
  rw [next?_of_spent (callAll_of_spent spent calls)]

/-! ### All that is still to be read -/

theorem remaining_length_le (c : Cursor) : c.remaining.length ≤ c.rest.length := by
  fun_induction remaining c with
  | case1 => exact Nat.zero_le _
  | case2 c item yields ih =>
    rw [List.length_cons]
    exact Nat.lt_of_le_of_lt ih (next?_length_lt yields)

/-- Of what is still to be read only the last can be a fault. -/
theorem exists_statements (c : Cursor) : ∃ statements : List Statement,
    c.remaining = statements.map .ok ∨ ∃ d, c.remaining = statements.map .ok ++ [.error d] := by
  fun_induction remaining c with
  | case1 => exact ⟨[], .inl rfl⟩
  | case2 c item yields ih =>
    cases item with
    | error d =>
      have left : c.next?.2.remaining = [] := remaining_of_none (next?_spent yields [])
      exact ⟨[], .inr ⟨d, by rw [left]; rfl⟩⟩
    | ok statement =>
      obtain ⟨statements, alone | ⟨d, refused⟩⟩ := ih
      · exact ⟨statement :: statements, .inl (by rw [alone]; rfl)⟩
      · exact ⟨statement :: statements, .inr ⟨d, by rw [refused]; rfl⟩⟩

/-- Asked for the next statement again and again, a cursor yields all that is still to be read, and
then nothing more. -/
theorem callAll_next (c : Cursor) (count : Nat) :
    (c.callAll (List.replicate count .next)).1 =
      (c.remaining.map some).take count ++ List.replicate (count - c.remaining.length) none := by
  induction count generalizing c with
  | zero => simp [callAll]
  | succ count ih =>
    rw [List.replicate_succ, callAll, call, ih]
    cases yields : c.next?.1 with
    | none =>
      have left : c.next?.2.next?.1 = none := by
        rcases next?_cases c with ended | ⟨_, _, read, _⟩ | ⟨_, refused⟩
        · rw [ended]
          rfl
        · simp [read] at yields
        · simp [refused] at yields
      rw [remaining_of_none yields, remaining_of_none left]
      simp [List.replicate_succ]
    | some item =>
      rw [remaining_of_some yields]
      simp

end Cursor

/-! ### Assembling as a fold -/

/-- The builder after what a statement says, written where it stands, or why it is refused. -/
def Builder.say (b : Builder) (statement : Statement) : Except Diagnostic Builder :=
  match statement with
  | .label name _ => b.call (.label name)
  | .instruction mnemonic operands span => (Entry.ofTexts mnemonic operands span).map b.record

/-- The builder after one more item, or why there is none: what was read is at fault, or what it
says. -/
def Builder.take (b : Builder) (item : Except Diagnostic Statement) : Except Diagnostic Builder :=
  item.bind b.say

/-- Assembling takes what is still to be read one by one, up to the first fault of either kind. -/
theorem Assembly.ofCursor_eq_foldlM (b : Builder) (c : Cursor) :
    (ofCursor b c).result =
      (c.remaining.foldlM Builder.take b).map Builder.program := by
  rw [ofCursor_eq_ofItems]
  generalize c.remaining = items
  induction items generalizing b with
  | nil => rfl
  | cons item items ih =>
    have same : b.take item = (item.bind Entry.ofStatement).map b.record := by
      obtain _ | _ | _ := item <;> rfl
    rw [ofItems, List.foldlM_cons, same]
    cases item.bind Entry.ofStatement with
    | ok entry => exact ih (b.record entry)
    | error d => rfl

/-- **Reading goes on, and ends.** Over any token list, whatever calls are made of a cursor in
whatever order, each of them leads from one place in the list to one that is not before it and not
behind the end, and further on if it is answered a statement; and once the next statement was a
fault, there is no next statement any more. From wherever calls have led to, asking for the next
statement yields as many items as there are tokens at most, of which only the last can be a fault,
and then nothing; and assembling is the fold over these items that declares the labels and records
the instructions where they are written, up to the first item that is a fault or that is
refused. -/
theorem Cursor.reading_progresses (tokens : List Token) :
    (∀ calls asked, ∃ index next, index ≤ next ∧ next ≤ tokens.length ∧
        ((ofTokens tokens).callAll calls).2 = past tokens index ∧
        ((past tokens index).call asked).2 = past tokens next ∧
        ∀ statement, ((past tokens index).call asked).1 = some (.ok statement) → index < next) ∧
      (∀ before after d, ((ofTokens tokens).callAll before).2.next?.1 = some (.error d) →
        ((ofTokens tokens).callAll (before ++ .next :: after)).2.next?.1 = none) ∧
      ∀ calls,
        let c := ((ofTokens tokens).callAll calls).2
        c.remaining.length ≤ tokens.length ∧
          (∃ statements : List Statement, c.remaining = statements.map .ok ∨
            ∃ d, c.remaining = statements.map .ok ++ [.error d]) ∧
          (∀ count, (c.callAll (List.replicate count .next)).1 =
            (c.remaining.map some).take count ++
              List.replicate (count - c.remaining.length) none) ∧
          (Assembly.ofCursor {} c).result =
            (c.remaining.foldlM Builder.take {}).map Builder.program := by
  have start : ofTokens tokens = past tokens 0 := rfl
  refine ⟨fun calls asked => ?_, fun before after d refused => ?_, fun calls => ?_⟩
  · obtain ⟨index, _, inside, here⟩ := callAll_past (Nat.zero_le tokens.length) calls
    obtain ⟨next, further, inside, there, moved⟩ := call_past inside asked
    exact ⟨index, next, further, inside, start ▸ here, there, moved⟩
  · rw [callAll_append]
    exact next?_spent refused after
  · obtain ⟨index, _, _, here⟩ := callAll_past (Nat.zero_le tokens.length) calls
    intro c
    have fewer : c.rest.length ≤ tokens.length := by
      have left : c = past tokens index := here
      rw [left, past, List.length_drop]
      exact Nat.sub_le _ _
    exact ⟨Nat.le_trans (remaining_length_le c) fewer, exists_statements c, callAll_next c,
      Assembly.ofCursor_eq_foldlM {} c⟩

end QuadAsm
