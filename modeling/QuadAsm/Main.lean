import QuadAsm.CommandLine

/-! The program: reads its arguments and its file, and writes what the command leaves
behind. -/
namespace QuadAsm

/-- The system's number of an error, which may come with its sign turned. -/
def systemCode (code : UInt32) : Nat := (min code (0 - code)).toNat

/-- What the system says about a file that cannot be read. -/
def unreadable : IO.Error → CommandLine.Unreadable
  | .noFileOrDirectory _ code message => .system message.capitalize (systemCode code)
  | .permissionDenied _ code message => .system message.capitalize (systemCode code)
  | .inappropriateType _ code message => .system message.capitalize (systemCode code)
  | .invalidArgument _ code message => .system message.capitalize (systemCode code)
  | .illegalOperation code message => .system message.capitalize (systemCode code)
  | .otherError code message => .system message.capitalize (systemCode code)
  | other => .system (toString other) 0

def readSource (file : String) : IO (Except CommandLine.Unreadable String) := do
  match ← (IO.FS.readBinFile file).toBaseIO with
  | .ok bytes => return CommandLine.decode bytes
  | .error e => return .error (unreadable e)

def respond (response : CommandLine.Response) : IO UInt32 := do
  IO.eprint response.stderr
  IO.print response.stdout
  return response.code.toUInt32

end QuadAsm

open QuadAsm in
def main (args : List String) : IO UInt32 := do
  match CommandLine.request args with
  | .error misuse => respond ⟨2, "", s!"error: {misuse.text}\n"⟩
  | .ok .version => respond ⟨0, CommandLine.versionText, ""⟩
  | .ok .help => respond ⟨0, CommandLine.helpText, ""⟩
  | .ok (.invoke invocation) =>
    match CommandLine.perform invocation (← readSource invocation.file) with
    | some response => respond response
    | none => respond ⟨1, "", "error: the program never ends\n"⟩
