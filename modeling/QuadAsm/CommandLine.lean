import QuadAsm.Assembly
import QuadAsm.CommandLine.Arguments
import QuadAsm.Machine.Run
import QuadAsm.Program.Listing
import QuadAsm.Report

/-! What a command does with the text of its file: an exit code and what it writes to
the two output streams. The log and the report of a fault go to the error stream, in
this order; a fault leaves the standard output empty. When the lines of the log are
written is nothing a command decides: it is told by a clock. -/
namespace QuadAsm.CommandLine

/-- What a command leaves behind. -/
structure Response where
  code : Nat
  stdout : String
  stderr : String
  deriving DecidableEq, Repr

/-- Why a file gives no text. -/
inductive Unreadable where
  /-- The system's message and its number. -/
  | system (message : String) (code : Nat)
  | notText
  deriving DecidableEq, Repr

def Unreadable.text : Unreadable → String
  | system message code => s!"{message} (os error {code})"
  | notText => "stream did not contain valid UTF-8"

/-- The text of a file's bytes. -/
def decode (bytes : ByteArray) : Except Unreadable String :=
  match String.fromUTF8? bytes with
  | some text => .ok text
  | none => .error .notText

/-- A log with one more event, if the verbosity asks for events of its level. -/
def note (verbosity : Nat) (log : Array Event) (event : Event) : Array Event :=
  if event.level.verbosity ≤ verbosity then log.push event else log

/-- When the lines of a log are written, line by line: a time with a space behind it, or
nothing where no times are wanted. -/
abbrev Clock := Nat → String

/-- The clock of a log without times. -/
def untimed : Clock := fun _ => ""

/-- The lines of a log. -/
def logText (clock : Clock) (log : Array Event) : String :=
  String.join (log.toList.zipIdx.map fun (event, index) => event.line (clock index) ++ "\n")

/-- A success that wrote this output. -/
def success (clock : Clock) (log : Array Event) (stdout : String) : Response :=
  ⟨0, stdout, logText clock log⟩

/-- A failure with the report of its fault. -/
def failure (clock : Clock) (log : Array Event) (file source : String) (d : Diagnostic) :
    Response :=
  ⟨1, "", logText clock log ++ Report.text file source d⟩

/-- The line in which `check` sums up a program. -/
def summary (file : String) (program : Program) : String :=
  s!"{file}: {program.size} instruction(s), {program.labels.size} label(s), " ++
    s!"{program.unresolved.length} unresolved jump(s)\n"

/-- Carries out an invocation on its file's text, by a clock; `none` when the program runs
forever. -/
def performBy (clock : Clock) (invocation : Invocation) (content : Except Unreadable String) :
    Option Response :=
  let file := invocation.file
  let note := note invocation.verbosity
  match content with
  | .error unreadable => some ⟨1, "", s!"error: could not read '{file}': {unreadable.text}\n"⟩
  | .ok source =>
    let assembly := Assembly.ofSource source
    let log := assembly.log.foldl note #[]
    match assembly.result with
    | .error d => some (failure clock log file source d)
    | .ok program =>
      let log := note log (.assembled program.size program.labels.size)
      match invocation.command with
      | .run limit =>
        (Machine.start.runWith program limit note log).map fun ending =>
          match ending.result with
          | .ok registers => success clock ending.seen (registers.text ++ "\n")
          | .error d => failure clock ending.seen file source d
      | .check =>
        let log := program.unresolved.foldl (fun log i => note log (.unresolvedJump file i)) log
        some (success clock log (summary file program))
      | .dump => some (success clock log program.listing)

/-- Carries out an invocation without times in the log. -/
def perform (invocation : Invocation) (content : Except Unreadable String) : Option Response :=
  performBy untimed invocation content

/-- The name and the version of the program. -/
def versionText : String := "tinyasm 0.1.0\n"

def helpText : String :=
  "Assemble and run four-register programs\n\n" ++
  "Usage: tinyasm [-v]... <COMMAND> <FILE>\n\n" ++
  "Commands:\n" ++
  "  run    Run a program and print the final registers\n" ++
  "         (--max-steps <N> aborts after N instructions)\n" ++
  "  check  Assemble a program and report problems without running it\n" ++
  "  dump   Print the assembled instruction listing\n\n" ++
  "Options:\n" ++
  "  -v, --verbose  Increase log output (-v debug, -vv trace)\n" ++
  "  -h, --help     Print help\n" ++
  "  -V, --version  Print version\n"

end QuadAsm.CommandLine
