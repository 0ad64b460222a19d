import QuadAsm.Proofs.Assembly.Lines
import QuadAsm.Proofs.Machine.Embedding
import QuadAsm.Proofs.Machine.Unresolved
import QuadAsm.Proofs.Program.Calls

/-! One program after another.

Calls that are made behind other calls record their program behind the other one
(`Builder.callAll_followedBy`), which is embedded in the whole as it was, and the second as far on
as the first is long. A machine that halts on the first program has its pointer just past it, and
that is where the second one begins: so the whole does what the first program does and then, from
the registers and the flag it left, what the second does (`runs_in_sequence`). -/
namespace QuadAsm

namespace Program

variable {program next : Program} {n : Nat}

/-! ### The two pieces of a program -/

theorem get?_followedBy_second (program : Program) (n : Nat) (next : Program) (index : Nat) :
    (program.followedBy n next).get? (index + program.size) =
      (next.get? index).map (Instruction.shift n) := by
  show (program.instructions ++ _)[index + program.instructions.size]? = _
  rw [Array.getElem?_append_right (Nat.le_add_left ..), Nat.add_sub_cancel, Array.getElem?_map]
  rfl

/-- A program is embedded in what follows it when no label is declared again. -/
theorem embeds_first (apart : ∀ name index, program.label? name = some index →
    next.label? name = none) (n : Nat) : program.Embeds 0 (program.followedBy n next) := by
  refine ⟨fun index i fetched => ?_, fun name index declared => ?_⟩
  · have inside : index < program.instructions.size := (Array.getElem?_eq_some_iff.mp fetched).1
    show (program.instructions ++ _)[index]? = some i
    rw [Array.getElem?_append_left inside]
    exact fetched
  · rw [label?_followedBy, apart name index declared, declared]
    rfl

/-- What follows a program, not moved along a text, is embedded as far on as that is long. -/
theorem embeds_second (program next : Program) :
    next.Embeds program.size (program.followedBy 0 next) := by
  refine ⟨fun index i fetched => ?_, fun name index declared => ?_⟩
  · rw [get?_followedBy_second, fetched]
    rfl
  · rw [label?_followedBy, declared]
    rfl

end Program

namespace Builder

variable {b placed last : Builder} {calls : List Call} {program : Program}

/-! ### Calls behind calls -/

theorem callAll_append (accepted : b.callAll calls = .ok last) (more : List Call) :
    b.callAll (calls ++ more) = last.callAll more := by
  unfold callAll at accepted ⊢
  rw [List.foldlM_append, accepted]
  rfl

theorem exists_label_iff (accepted : ({} : Builder).callAll calls = .ok last) {name : String} :
    (∃ index, last.program.label? name = some index) ↔ .label name ∈ calls := by
  rw [← attemptAll_of_callAll accepted]
  exact exists_label_attemptAll_iff

theorem built_of_callAll (accepted : ({} : Builder).callAll calls = .ok last) :
    last.program.Built := by
  rw [← attemptAll_of_callAll accepted]
  exact .calls calls

/-- A name that is declared in one of two lists only has no label in the other program. -/
theorem label?_of_apart {others : List Call} {other : Builder}
    (accepted : ({} : Builder).callAll calls = .ok last)
    (accepted' : ({} : Builder).callAll others = .ok other)
    (apart : ∀ name, .label name ∈ calls → .label name ∉ others) (name : String) (index : Nat)
    (declared : last.program.label? name = some index) : other.program.label? name = none := by
  have member := (exists_label_iff accepted).mp ⟨index, declared⟩
  apply Option.eq_none_iff_forall_ne_some.mpr
  intro index' declared'
  exact apart name member ((exists_label_iff accepted').mp ⟨index', declared'⟩)

/-- Where each jump names a label that is declared, none is unresolved. -/
theorem unresolved_of_closed (accepted : ({} : Builder).callAll calls = .ok last)
    (closed : ∀ i ∈ last.program.instructions, ∀ name, i.target? = some name →
      .label name ∈ calls) : last.program.unresolved = [] := by
  apply List.eq_nil_iff_forall_not_mem.mpr
  intro i member
  obtain ⟨here, name, target, undeclared⟩ := Program.mem_unresolved_iff.mp member
  obtain ⟨index, declared⟩ := (exists_label_iff accepted).mpr (closed i here name target)
  rw [undeclared] at declared
  cases declared

/-- Calls that are made behind a program record what they record alone, behind that program. -/
theorem callAll_followedBy (same : placed.program = program.followedBy 0 b.program)
    (accepted : b.callAll calls = .ok last) :
    ∃ whole, placed.callAll calls = .ok whole ∧
      whole.program = program.followedBy 0 last.program := by
  induction calls generalizing b placed with
  | nil =>
    cases accepted
    exact ⟨placed, rfl, same⟩
  | cons c calls ih =>
    cases asked : c.entry with
    | ok entry =>
      rw [callAll_cons_ok asked] at accepted ⊢
      have stays : entry.shift 0 = entry := by cases entry <;> rfl
      have recorded := record_followedBy same entry
      rw [stays] at recorded
      exact ih recorded accepted
    | error d =>
      rw [callAll_cons_error asked] at accepted
      cases accepted

end Builder

namespace Machine

/-- Where every jump has a label, no step is refused without a limit. -/
theorem advance_of_resolved {program : Program} (resolved : program.unresolved = []) (count : Nat)
    (m : Machine) : ∃ last, m.advance program none count = .ok last := by
  induction count generalizing m with
  | zero => exact ⟨m, rfl⟩
  | succ count ih =>
    cases stepped : m.step program none with
    | ok next =>
      obtain ⟨last, reached⟩ := ih next
      exact ⟨last, advance_succ_eq_ok_iff.mpr ⟨next, stepped, reached⟩⟩
    | error d =>
      obtain ⟨i, _, takes, _⟩ := refused_iff_unresolved.mp ⟨stepped, kind_of_refused stepped⟩
      have member := takes.unresolved
      rw [resolved] at member
      cases member

/-- **Programs run in sequence.** Let two lists of calls be accepted, no label be declared in
both, and each jump of the second name a label of the second. Both together are accepted, and if
the first program halts after some steps, so many steps take the whole program to just past the
first one, with the same registers and flag; from there it makes the steps that the second program
makes from these registers and this flag, and halts when that does. -/
theorem runs_in_sequence {first second : List Builder.Call} {p q : Builder}
    (accepted : ({} : Builder).callAll first = .ok p)
    (accepted' : ({} : Builder).callAll second = .ok q)
    (apart : ∀ name, .label name ∈ first → .label name ∉ second)
    (closed : ∀ i ∈ q.program.instructions, ∀ name, i.target? = some name →
      .label name ∈ second) :
    ∃ r, ({} : Builder).callAll (first ++ second) = .ok r ∧
      ∀ m, start.advance p.program none m.steps = .ok m → m.halted p.program = true →
        start.advance r.program none m.steps = .ok { m with pointer := p.program.size } ∧
          ∀ count, ∃ last : Machine,
            { m with pointer := 0, steps := 0 }.advance q.program none count = .ok last ∧
            { m with pointer := p.program.size }.advance r.program none count =
              .ok (last.further p.program.size m.steps) ∧
            (last.further p.program.size m.steps).halted r.program = last.halted q.program := by
  have nothing_yet : p.program = p.program.followedBy 0 ({} : Builder).program :=
    (p.program.followedBy_empty 0).symm
  obtain ⟨r, behind, whole⟩ := Builder.callAll_followedBy nothing_yet accepted'
  refine ⟨r, (Builder.callAll_append accepted second).trans behind, fun m reached halted => ?_⟩
  rw [whole]
  have past : m.pointer = p.program.size := by
    have bounded := (Builder.built_of_callAll accepted).bounded
    exact (sound_start.advance bounded reached).halted_iff.mp halted
  have ends : (p.program.followedBy 0 q.program).size = q.program.size + p.program.size := by
    rw [Program.size_followedBy, Nat.add_comm]
  constructor
  · have separate := Builder.label?_of_apart accepted accepted' apart
    rw [← past]
    exact (Program.embeds_first separate 0).advance 0 reached (Nat.zero_add _).symm
  · intro count
    have resolved := Builder.unresolved_of_closed accepted' closed
    obtain ⟨last, done⟩ := advance_of_resolved resolved count { m with pointer := 0, steps := 0 }
    have further := (Program.embeds_second p.program q.program).advance_end m.steps ends done
    refine ⟨last, done, ?_, halted_further m.steps last ends⟩
    simpa [Machine.further] using further

/-- A countdown that ends at a label of its own, and behind it one that takes over its flag. -/
theorem runs_in_sequence_countdown :
    let first := [.mov .ax (.literal 2), .label "down", .dec .ax (.literal 1),
      .cmp (.register .ax) (.literal 0), .jump .notEqual "down", .label "out"]
    let second := [.jump .equal "up", .inc .cx (.literal 9), .label "up", .inc .bx (.literal 1),
      .cmp (.register .bx) (.literal 2), .jump .less "up"]
    let m : Machine := { pointer := 4, steps := 7 }
    let last : Machine :=
      { registers := ({} : Bank).set .bx 2, flag := .eq, pointer := 5, steps := 7 }
    ∃ r, ({} : Builder).callAll (first ++ second) = .ok r ∧
      start.advance r.program none 7 = .ok m ∧
      m.advance r.program none 7 = .ok (last.further 4 7) ∧
      (last.further 4 7).halted r.program = true := by
  intro first second m last
  let p := ({} : Builder).attemptAll first
  let q := ({} : Builder).attemptAll second
  have apart (name : String) (member : .label name ∈ first) : .label name ∉ second := by
    have named : name = "down" ∨ name = "out" := by
      simpa [first, Builder.Call.mov, Builder.Call.dec, Builder.Call.cmp, Builder.Call.jump]
        using member
    rcases named with rfl | rfl <;> decide
  have closed (i : Instruction) (member : i ∈ q.program.instructions) (name : String)
      (target : i.target? = some name) : .label name ∈ second := by
    have names : q.program.instructions.toList.filterMap Instruction.target? = ["up", "up"] := rfl
    have named : name ∈ ["up", "up"] :=
      names ▸ List.mem_filterMap.mpr ⟨i, Array.mem_toList_iff.mpr member, target⟩
    rw [show name = "up" by simpa using named]
    decide
  obtain ⟨r, accepted, runs⟩ := runs_in_sequence (p := p) (q := q) rfl rfl apart closed
  have reached : start.advance p.program none 7 = .ok m := by cbv
  have again : { m with pointer := 0, steps := 0 }.advance q.program none 7 = .ok last := by cbv
  obtain ⟨through, further⟩ := runs m reached (by cbv)
  obtain ⟨there, made, ends, halts⟩ := further 7
  cases again.symm.trans made
  exact ⟨r, accepted, through, ends, halts.trans (by cbv)⟩

end Machine

end QuadAsm
