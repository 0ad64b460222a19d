import QuadAsm.Main
import QuadAsm.Proofs.Assembly.Lines
import QuadAsm.Proofs.Assembly.Listing
import QuadAsm.Proofs.Machine.Limit
import QuadAsm.Proofs.Machine.History
import QuadAsm.Proofs.Assembly.Located
import QuadAsm.Proofs.Machine.Sequence
import QuadAsm.Proofs.Statement.Places
import QuadAsm.Proofs.Machine.Renaming
import QuadAsm.Proofs.Assembly.Slices
import QuadAsm.Proofs.Instruction.Literals
import QuadAsm.Proofs.Assembly.Operands
import QuadAsm.Proofs.Machine.Permuting
import QuadAsm.Proofs.CommandLine.Commands
import QuadAsm.Proofs.Instruction.Words
import QuadAsm.Proofs.Report.Marks
import QuadAsm.Proofs.Machine.Refusals
import QuadAsm.Proofs.Machine.StraightLine
import QuadAsm.Proofs.Machine.Forward
import QuadAsm.Proofs.Machine.Isolation
import QuadAsm.Proofs.Statement.Stops
import QuadAsm.Proofs.Assembly.Progress
import QuadAsm.Proofs.Assembly.FirstFault
import QuadAsm.Proofs.Program.Words
import QuadAsm.Proofs.Assembly.Case
import QuadAsm.Proofs.Token.Spaced
import QuadAsm.Proofs.Machine.Log
import QuadAsm.Proofs.Program.Declarations
import QuadAsm.Proofs.Machine.Places
import QuadAsm.Proofs.Report.Told
import QuadAsm.Proofs.Euclid.Text
