import QuadAsm.Instruction
import QuadAsm.Text.Padding

/-! What assembling and running a program leave in the log, event by event. An event
settles its level, the part of the program it comes from and its wording. -/
namespace QuadAsm

/-- How much an event matters, the most important first. -/
inductive Level where
  | warn
  | info
  | debug
  | trace
  deriving DecidableEq, Repr

namespace Level

def name : Level → String
  | warn => "WARN"
  | info => "INFO"
  | debug => "DEBUG"
  | trace => "TRACE"

/-- How often verbosity has to be asked for before events of the level are shown. -/
def verbosity : Level → Nat
  | warn => 0
  | info => 1
  | debug => 1
  | trace => 2

end Level

inductive Event where
  /-- A label that was not declared before points at the next instruction. -/
  | labelDeclared (name : String) (index : Nat)
  /-- A label declared again leaves its old index. -/
  | labelMoved (name : String) (before index : Nat)
  | runStarted (size pointer : Nat)
  /-- The instruction at the pointer is about to be executed. -/
  | executing (pointer : Nat) (instruction : Instruction) (flag : Flag)
  | runHalted (steps : Nat)
  | assembled (instructions labels : Nat)
  | unresolvedJump (file : String) (instruction : Instruction)
  deriving DecidableEq, Repr

namespace Event

def level : Event → Level
  | labelDeclared _ _ => .debug
  | labelMoved _ _ _ => .warn
  | runStarted _ _ => .debug
  | executing _ _ _ => .trace
  | runHalted _ => .debug
  | assembled _ _ => .info
  | unresolvedJump _ _ => .warn

/-- The part of the program an event names as its origin. -/
def origin : Event → String
  | labelDeclared _ _ => "tinyasm::program"
  | labelMoved _ _ _ => "tinyasm::program"
  | runStarted _ _ => "tinyasm::engine"
  | executing _ _ _ => "tinyasm::engine"
  | runHalted _ => "tinyasm::engine"
  | assembled _ _ => "tinyasm"
  | unresolvedJump _ _ => "tinyasm"

def message : Event → String
  | labelDeclared name index => s!"label '{name}' -> {index}"
  | labelMoved name before index =>
    s!"label '{name}' redeclared, moving it from {before} to {index}"
  | runStarted size pointer => s!"running {size} instruction(s) from {pointer}"
  | executing pointer instruction flag =>
    s!"{Text.alignRight 4 (toString pointer)}: {Text.alignLeft 16 instruction.text} flag={flag.name}"
  | runHalted steps => s!"halted after {steps} step(s)"
  | assembled instructions labels =>
    s!"assembled {instructions} instruction(s), {labels} label(s)"
  | unresolvedJump file instruction =>
    s!"{file}:{instruction.span.start}..{instruction.span.stop}: " ++
      s!"'{instruction.text}' jumps to an undeclared label"

/-- The event as a line of the log, with what tells the time in front of its level. -/
def line (time : String) (event : Event) : String :=
  s!"[{time}{Text.alignLeft 5 event.level.name} {event.origin}] {event.message}"

end Event

end QuadAsm
