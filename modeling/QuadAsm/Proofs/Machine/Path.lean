import QuadAsm.Proofs.Machine.Advance

/-! The way from one machine to another.

A path lists the steps that are made on the way, each with the machine that makes it and the
instruction it executes. Paths that meet can be joined and any path can be cut (`path_append_iff`);
a path is as long as the machine counts (`Path.steps`), and no two of one length start at one
machine (`Path.unique`). Where `advance` leads there is a path to (`exists_path`): the steps that
a halted machine does not make are left out. -/
namespace QuadAsm.Machine

/-- A step that is made: the machine before it and the instruction it executes. -/
structure Visit where
  machine : Machine
  instruction : Instruction

/-- The steps that lead from one machine to another, in order. -/
inductive Path (program : Program) (limit : Option Nat) :
    Machine → List Visit → Machine → Prop where
  | nil (m : Machine) : Path program limit m [] m
  | cons {m next last : Machine} {i : Instruction} {visits : List Visit}
      (fetched : program.get? m.pointer = some i) (stepped : m.step program limit = .ok next)
      (rest : Path program limit next visits last) : Path program limit m (⟨m, i⟩ :: visits) last

variable {program : Program} {limit : Option Nat} {m next last : Machine} {visits : List Visit}

theorem Path.of_step {i : Instruction} (fetched : program.get? m.pointer = some i)
    (stepped : m.step program limit = .ok next) : Path program limit m [⟨m, i⟩] next :=
  .cons fetched stepped (.nil next)

theorem path_append_iff {more : List Visit} : Path program limit m (visits ++ more) last ↔
    ∃ middle, Path program limit m visits middle ∧ Path program limit middle more last := by
  induction visits generalizing m with
  | nil =>
    constructor
    · exact fun path => ⟨m, .nil m, path⟩
    · rintro ⟨_, ⟨⟩, path⟩
      exact path
  | cons v visits ih =>
    constructor
    · intro path
      cases path with
      | cons fetched stepped rest =>
        obtain ⟨middle, first, second⟩ := ih.mp rest
        exact ⟨middle, .cons fetched stepped first, second⟩
    · rintro ⟨middle, first, second⟩
      cases first with
      | cons fetched stepped rest => exact .cons fetched stepped (ih.mpr ⟨middle, rest, second⟩)

/-- Every step of a path is counted. -/
theorem Path.steps (path : Path program limit m visits last) :
    last.steps = m.steps + visits.length := by
  induction path with
  | nil m => rfl
  | cons fetched stepped _ ih =>
    rcases steps_of_step stepped with ⟨halted, _⟩ | ⟨_, _, counted⟩
    · rw [halted_iff.mp halted] at fetched
      cases fetched
    · rw [ih, counted, List.length_cons]
      omega

theorem Path.advance (path : Path program limit m visits last) :
    m.advance program limit visits.length = .ok last := by
  induction path with
  | nil m => rfl
  | cons _ stepped _ ih => exact advance_succ_eq_ok_iff.mpr ⟨_, stepped, ih⟩

theorem exists_path {count : Nat} (reached : m.advance program limit count = .ok last) :
    ∃ visits, Path program limit m visits last := by
  induction count generalizing m with
  | zero =>
    cases reached
    exact ⟨[], .nil _⟩
  | succ count ih =>
    obtain ⟨next, stepped, rest⟩ := advance_succ_eq_ok_iff.mp reached
    obtain ⟨visits, path⟩ := ih rest
    rcases steps_of_step stepped with ⟨_, rfl⟩ | ⟨running, _, _⟩
    · exact ⟨visits, path⟩
    · obtain ⟨i, fetched⟩ := running_iff.mp running
      exact ⟨_, .cons fetched stepped path⟩

/-- Steps leave no choice. -/
theorem Path.unique {others : List Visit} {there : Machine}
    (path : Path program limit m visits last) (path' : Path program limit m others there)
    (length : visits.length = others.length) :
    visits = others ∧ last = there := by
  induction path generalizing others with
  | nil m =>
    cases path' with
    | nil => exact ⟨rfl, rfl⟩
    | cons _ _ _ => cases length
  | cons fetched stepped _ ih =>
    cases path' with
    | nil => cases length
    | cons fetched' stepped' rest' =>
      rw [fetched] at fetched'
      rw [stepped] at stepped'
      cases fetched'
      cases stepped'
      obtain ⟨rfl, same⟩ := ih rest' (Nat.succ.inj length)
      exact ⟨rfl, same⟩

end QuadAsm.Machine
