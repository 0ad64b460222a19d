import QuadAsm.Machine

/-! Whole runs.

A run steps a machine until it halts or a step is refused. Nothing bounds the number
of steps of a run without a limit, but a machine has finitely many configurations, so
a run that has made more steps than a program has running ones has come back to one
of them and never ends (`fuel`). What a run leaves in the log is handed to an observer
event by event, so that a run nobody watches keeps no log. -/
namespace QuadAsm.Machine

/-- How a run ended: the machine it left, the registers or the refused step's fault,
and what an observer made of its log. -/
structure Ending (σ : Type) where
  machine : Machine
  result : Except Diagnostic Bank
  seen : σ

/-- Makes up to `fuel` steps, one of them at least; `none` when the run is not over
by then. -/
def runFor {σ : Type} (program : Program) (limit : Option Nat) (observe : σ → Event → σ) :
    Nat → Machine → σ → Option (Ending σ)
  | 0, _, _ => none
  | fuel + 1, m, seen =>
    let seen := (m.event? program limit).elim seen (observe seen)
    match m.step program limit with
    | .error d => some ⟨m, .error d, seen⟩
    | .ok after =>
      if after.halted program then
        some ⟨after, .ok after.registers, observe seen (.runHalted after.steps)⟩
      else runFor program limit observe fuel after seen

/-- How many configurations a machine can run on from: a pointer into the program, one
of three flags and four words of 64 bits. -/
def configurations (program : Program) : Nat :=
  let words := UInt64.size
  program.size * 3 * (words * words * words * words)

/-- Steps enough for every run that ends: what the limit leaves and the step it
refuses, or else one for every configuration and one more. -/
def fuel (program : Program) (limit : Option Nat) (m : Machine) : Nat :=
  match limit with
  | some limit => limit - m.steps + 1
  | none => configurations program + 1

/-- A run and what an observer makes of it; `none` when it never ends. -/
def runWith {σ : Type} (program : Program) (limit : Option Nat) (observe : σ → Event → σ)
    (m : Machine) (seen : σ) : Option (Ending σ) :=
  runFor program limit observe (fuel program limit m) m
    (observe seen (.runStarted program.size m.pointer))

/-- A run that nobody watches. -/
def run (program : Program) (limit : Option Nat) (m : Machine) : Option (Ending Unit) :=
  m.runWith program limit (fun _ _ => ()) ()

/-- A run with its whole log. -/
def runLogged (program : Program) (limit : Option Nat) (m : Machine) :
    Option (Ending (Array Event)) :=
  m.runWith program limit Array.push #[]

/-! ### Calls as data -/

/-- What can be asked of a machine. -/
inductive Call where
  | step
  | run
  | reset
  deriving DecidableEq, Repr

/-- What a machine answers. -/
inductive Answer where
  | stepped (halted : Bool)
  | ran (registers : Bank)
  | reset
  | refused (diagnostic : Diagnostic)
  deriving DecidableEq, Repr

/-- A call's answer, the machine it leaves and its log. -/
structure Reply where
  answer : Answer
  machine : Machine
  log : Array Event

/-- Carries out a call; `none` for a run that never ends. -/
def call (program : Program) (limit : Option Nat) (m : Machine) : Call → Option Reply
  | .step =>
    let log := (m.event? program limit).toArray
    match m.step program limit with
    | .ok after => some ⟨.stepped (after.halted program), after, log⟩
    | .error d => some ⟨.refused d, m, log⟩
  | .run =>
    (m.runLogged program limit).map fun ending =>
      match ending.result with
      | .ok registers => ⟨.ran registers, ending.machine, ending.seen⟩
      | .error d => ⟨.refused d, ending.machine, ending.seen⟩
  | .reset => some ⟨.reset, start, #[]⟩

end QuadAsm.Machine

namespace QuadAsm

/-- The registers a program ends with, or the fault that ends it; `none` when it runs
forever. -/
def Program.run (program : Program) (limit : Option Nat) : Option (Except Diagnostic Bank) :=
  (Machine.start.run program limit).map (·.result)

end QuadAsm
