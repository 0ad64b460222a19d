import QuadAsm.Assembly
import QuadAsm.Machine.Run

/-! Running a program text. What cannot be assembled is not run, and its first fault is the
result. -/
namespace QuadAsm

/-- The registers the program of a text ends with, or what is wrong with the text or the run;
`none` when it runs forever. -/
def runSource (source : String) (limit : Option Nat) : Option (Except Diagnostic Bank) :=
  match assemble source with
  | .ok program => program.run limit
  | .error d => some (.error d)

end QuadAsm
