import QuadAsm.Proofs.Machine.History

/-! What a run leaves in the log.

Between the record of its start and, if it succeeds, that of its end, a run writes one record for
each visit on its path, and one more when it is refused an instruction that it has looked at
(`seen_of_runFor`). So the records in between are the instructions that are attempted, step by step
(`getElem?_attempted`), and their number is told by the counter and the answer (`run_log_exact`). -/
namespace QuadAsm.Machine

variable {program : Program} {limit : Option Nat} {m next last : Machine}
  {result : Except Diagnostic Bank}

/-! ### The record of one step -/

/-- The record of an instruction that is about to be executed. -/
def Visit.event (v : Visit) : Event := .executing v.machine.pointer v.instruction v.machine.flag

/-- A record is written for an instruction that the limit does not stop. -/
theorem event?_eq_some_iff {event : Event} : m.event? program limit = some event ↔
    ∃ i, program.get? m.pointer = some i ∧ m.reached? limit = none ∧
      event = .executing m.pointer i m.flag := by
  unfold event?
  cases program.get? m.pointer <;> cases m.reached? limit <;> simp [eq_comm]

theorem event?_of_halted (halted : m.halted program = true) : m.event? program limit = none := by
  rw [Option.eq_none_iff_forall_ne_some]
  intro event written
  obtain ⟨i, fetched, _⟩ := event?_eq_some_iff.mp written
  rw [halted_iff.mp halted] at fetched
  cases fetched

theorem level_of_event? {event : Event} (written : m.event? program limit = some event) :
    event.level = .trace := by
  obtain ⟨i, _, _, rfl⟩ := event?_eq_some_iff.mp written
  rfl

/-- A step that is made has its visit's record, or is that of a halted machine and has none. -/
theorem event?_of_step (stepped : m.step program limit = .ok next) :
    (m.halted program = true ∧ next = m) ∨ ∃ i, program.get? m.pointer = some i ∧
      m.event? program limit = some (Visit.event ⟨m, i⟩) := by
  rcases steps_of_step stepped with halted | ⟨running, free, _⟩
  · exact .inl halted
  · obtain ⟨i, fetched⟩ := running_iff.mp running
    exact .inr ⟨i, fetched, event?_eq_some_iff.mpr ⟨i, fetched, free, rfl⟩⟩

/-- A refused step has a record just when it is refused for a label. -/
theorem event?_of_refused {d : Diagnostic} (refused : m.step program limit = .error d) :
    (d.kind = .unresolvedLabel ∧ ∃ event, m.event? program limit = some event) ∨
      (d.kind = .stepLimit ∧ m.event? program limit = none) := by
  cases Stepped.of_eq refused with
  | limited fetched reached => exact .inr ⟨rfl, by simp only [event?, fetched, reached]⟩
  | unresolved fetched free _ _ _ =>
    refine .inl ⟨?_, _, event?_eq_some_iff.mpr ⟨_, fetched, free, rfl⟩⟩
    rw [Diagnostic.kind, Diagnostic.fault_locate]
    rfl

/-! ### The records of a run -/

/-- The record that a run ends with, if it succeeds. -/
def closing (last : Machine) : Except Diagnostic Bank → List Event
  | .ok _ => [.runHalted last.steps]
  | .error _ => []

/-- The records of the visits, and that of what `last` attempts. -/
def attempted (program : Program) (limit : Option Nat) (visits : List Visit) (last : Machine) :
    List Event :=
  visits.map Visit.event ++ (last.event? program limit).toList

theorem attempted_of_halted (visits : List Visit) (halted : last.halted program = true) :
    attempted program limit visits last = visits.map Visit.event := by
  rw [attempted, event?_of_halted halted, Option.toList_none, List.append_nil]

/-- A run shows its observer what is attempted on its path, then its end. -/
theorem seen_of_runFor {σ : Type} {observe : σ → Event → σ} {fuel : Nat} {seen : σ}
    {ending : Ending σ} (h : runFor program limit observe fuel m seen = some ending) :
    ∃ visits, Path program limit m visits ending.machine ∧
      ending.seen = (attempted program limit visits ending.machine ++
        closing ending.machine ending.result).foldl observe seen := by
  induction fuel generalizing m seen with
  | zero => cases h
  | succ fuel ih =>
    simp only [runFor] at h
    cases stepped : m.step program limit with
    | error d =>
      simp only [stepped] at h
      cases h
      refine ⟨[], .nil m, ?_⟩
      cases written : m.event? program limit <;> simp [attempted, closing, written]
    | ok next =>
      simp only [stepped] at h
      rcases event?_of_step stepped with ⟨halted, rfl⟩ | ⟨i, fetched, written⟩
      · simp only [halted, if_true, event?_of_halted halted] at h
        cases h
        exact ⟨[], .nil next, by simp [attempted_of_halted _ halted, closing]⟩
      · simp only [written, Option.elim_some] at h
        split at h
        · rename_i halted
          cases h
          exact ⟨[⟨m, i⟩], .of_step fetched stepped, by
            simp [attempted_of_halted _ halted, closing]⟩
        · obtain ⟨visits, path, shown⟩ := ih h
          exact ⟨⟨m, i⟩ :: visits, .cons fetched stepped path, shown⟩

/-- From the end of a run there is nothing further to record. -/
theorem Final.event?_further (final : Final program limit m result) {count : Nat}
    (reached : m.advance program limit (count + 1) = .ok last) :
    last.event? program limit = none := by
  cases final with
  | halted halted =>
    rw [advance_of_halted halted] at reached
    cases reached
    exact event?_of_halted halted
  | refused refused =>
    obtain ⟨next, stepped, _⟩ := advance_succ_eq_ok_iff.mp reached
    rw [refused] at stepped
    cases stepped

/-- What is attempted on the way to the end of a run are the records of its steps, one by one. -/
theorem getElem?_attempted {visits : List Visit} (path : Path program limit m visits last)
    (final : Final program limit last result) {k : Nat} {event : Event} :
    (attempted program limit visits last)[k]? = some event ↔
      ∃ before, m.advance program limit k = .ok before ∧
        before.event? program limit = some event := by
  induction path generalizing k with
  | nil last =>
    cases k with
    | zero => cases written : last.event? program limit <;> simp [attempted, advance, written]
    | succ k =>
      constructor
      · intro found
        cases written : last.event? program limit <;> simp [attempted, written] at found
      · rintro ⟨before, reached, written⟩
        rw [final.event?_further reached] at written
        cases written
  | @cons m next last i visits fetched stepped _ ih =>
    cases k with
    | zero =>
      rcases event?_of_step stepped with ⟨halted, _⟩ | ⟨j, fetched', written⟩
      · rw [halted_iff.mp halted] at fetched
        cases fetched
      · rw [fetched] at fetched'
        cases fetched'
        simp [attempted, advance, written]
    | succ k =>
      rw [advance, stepped]
      exact ih final

/-- As many are attempted as are made, and one more if a label is to blame for the end. -/
theorem length_attempted_of_refused {visits : List Visit} {d : Diagnostic}
    (refused : last.step program limit = .error d) :
    (d.kind = .unresolvedLabel ∧
        (attempted program limit visits last).length = visits.length + 1) ∨
      (d.kind = .stepLimit ∧ (attempted program limit visits last).length = visits.length) := by
  rcases event?_of_refused refused with ⟨kind, event, written⟩ | ⟨kind, silent⟩
  · exact .inl ⟨kind, by simp [attempted, written]⟩
  · exact .inr ⟨kind, by simp [attempted, silent]⟩

theorem level_of_mem_attempted {visits : List Visit} {event : Event}
    (member : event ∈ attempted program limit visits last) : event.level = .trace := by
  rcases List.mem_append.mp member with visited | refused
  · obtain ⟨v, _, rfl⟩ := List.mem_map.mp visited
    rfl
  · exact level_of_event? (Option.mem_toList.mp refused)

/-- Of a run's records those of the lowest level are what is attempted. -/
theorem filter_records (size pointer : Nat) (visits : List Visit) (result : Except Diagnostic Bank) :
    (Event.runStarted size pointer ::
        (attempted program limit visits last ++ closing last result)).filter
          (fun event => decide (event.level = .trace)) =
      attempted program limit visits last := by
  have traced : ∀ event ∈ attempted program limit visits last,
      decide (event.level = .trace) = true :=
    fun event member => decide_eq_true (level_of_mem_attempted member)
  rw [List.filter_cons_of_neg (by simp [Event.level]), List.filter_append,
    List.filter_eq_self.mpr traced]
  cases result <;> simp [closing, Event.level]

/-- A run that returns has a path to where it ends, and its log is what is attempted there. -/
theorem exists_path_of_run {reply : Reply} (called : m.call program limit .run = some reply) :
    ∃ visits result, Path program limit m visits reply.machine ∧
      Final program limit reply.machine result ∧ reply.answer = .ofResult result ∧
      reply.log.toList = .runStarted program.size m.pointer ::
        (attempted program limit visits reply.machine ++ closing reply.machine result) := by
  obtain ⟨ending, carried, rfl⟩ := Option.map_eq_some_iff.mp called
  obtain ⟨visits, path, shown⟩ := seen_of_runFor carried
  obtain ⟨_, _, final⟩ := ends_of_runFor carried
  refine ⟨visits, ending.result, ?_⟩
  have log : ending.seen.toList = .runStarted program.size m.pointer ::
      (attempted program limit visits ending.machine ++
        closing ending.machine ending.result) := by
    rw [shown, List.foldl_push_eq_append']
    simp
  cases result : ending.result <;> rw [result] at final log <;> exact ⟨path, final, rfl, log⟩

/-- **The log of a run is its execution path.** Of any machine, a run that returns leaves the
record of its start, which tells the program's length and the pointer; then trace records, of which
the one at `k` is there just when the machine after `k` steps attempts an instruction, which it
shows with that machine's pointer and flag; and then, just when the run succeeds, the record of its
end, which tells the counter. There are as many trace records as the counter has moved on by, and
one more just when the run is refused for a label; a run that its limit stops has no more. -/
theorem run_log_exact {reply : Reply} (called : m.call program limit .run = some reply) :
    let made := reply.machine.steps - m.steps
    let traced := reply.log.toList.filter (·.level = .trace)
    m.steps ≤ reply.machine.steps ∧ m.advance program limit made = .ok reply.machine ∧
      (∀ k event, traced[k]? = some event ↔
        ∃ before i, m.advance program limit k = .ok before ∧
          program.get? before.pointer = some i ∧
          (∀ bound, limit = some bound → before.steps < bound) ∧
          event = .executing before.pointer i before.flag) ∧
      ((∃ registers, reply.answer = .ran registers ∧ traced.length = made ∧
          reply.log.toList = .runStarted program.size m.pointer ::
            (traced ++ [.runHalted reply.machine.steps])) ∨
        ∃ d, reply.answer = .refused d ∧
          reply.log.toList = .runStarted program.size m.pointer :: traced ∧
          (d.kind = .unresolvedLabel ∧ traced.length = made + 1 ∨
            d.kind = .stepLimit ∧ traced.length = made)) := by
  intro made traced
  obtain ⟨visits, result, path, final, answer, log⟩ := exists_path_of_run called
  have all : traced = attempted program limit visits reply.machine := by
    show reply.log.toList.filter _ = _
    rw [log]
    exact filter_records ..
  have count : made = visits.length := by
    show reply.machine.steps - m.steps = _
    rw [path.steps, Nat.add_sub_cancel_left]
  rw [all, count, log]
  refine ⟨by rw [path.steps]; exact Nat.le_add_right .., path.advance, fun k event => ?_, ?_⟩
  · simp only [getElem?_attempted path final, event?_eq_some_iff, reached?_eq_none_iff]
    constructor
    · rintro ⟨before, reached, i, rest⟩
      exact ⟨before, i, reached, rest⟩
    · rintro ⟨before, i, reached, rest⟩
      exact ⟨before, reached, i, rest⟩
  · cases final with
    | halted halted =>
      exact .inl ⟨_, answer, by simp [attempted_of_halted visits halted], rfl⟩
    | refused refused =>
      exact .inr ⟨_, answer, by simp [closing], length_attempted_of_refused refused⟩

/-- Resumed behind its first step, and refused a jump that has been looked at. -/
theorem run_log_exact_resumed :
    let calls := [.inc .ax (.literal 1), .inc .bx (.literal 2), .jump .always "nowhere"]
    let program := (({} : Builder).attemptAll calls).program
    let m : Machine := { registers := ({} : Bank).set .ax 1, pointer := 1, steps := 1 }
    ∃ reply, m.call program (some 9) .run = some reply ∧ reply.machine.steps = 2 ∧
      (reply.log.toList.filter (·.level = .trace)).length = 2 := by
  intro calls program m
  let d := (Fault.unresolvedLabel "nowhere").unplaced.locate .empty
  have replied : (m.call program (some 9) .run).map (fun reply => (reply.answer, reply.machine.steps)) =
      some (.refused d, 2) := by cbv
  obtain ⟨reply, called, left⟩ := Option.map_eq_some_iff.mp replied
  have answer : reply.answer = .refused d := congrArg Prod.fst left
  have steps : reply.machine.steps = 2 := congrArg Prod.snd left
  obtain ⟨_, _, _, ⟨registers, ran, _⟩ | ⟨e, refused, _, counted⟩⟩ := run_log_exact called
  · rw [answer] at ran
    cases ran
  · rw [answer] at refused
    cases refused
    obtain ⟨_, counted⟩ | ⟨⟨⟩, _⟩ := counted
    refine ⟨reply, called, steps, ?_⟩
    rw [counted, steps]
    rfl

end QuadAsm.Machine
