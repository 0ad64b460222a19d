import QuadAsm.Program.Builder
import QuadAsm.Token.Reading

/-! From a program text to a program. The first fault ends it: a character that starts
no token comes before everything else, then the statements are taken one by one. -/
namespace QuadAsm

/-- What assembling leaves behind: a program or the first fault, and the log up to
there. -/
structure Assembly where
  result : Except Diagnostic Program
  log : Array Event

namespace Assembly

/-- Records the statements from here on behind what has been recorded. -/
def ofCursor (b : Builder) (c : Cursor) : Assembly :=
  match _h : c.next?.1 with
  | none => ⟨.ok b.program, b.log⟩
  | some item =>
    match item.bind Entry.ofStatement with
    | .ok entry => ofCursor (b.record entry) c.next?.2
    | .error d => ⟨.error d, b.log⟩
termination_by c.rest.length
decreasing_by exact Cursor.next?_length_lt _h

def ofSource (source : String) : Assembly :=
  match Token.read source with
  | .ok tokens => ofCursor {} (.ofTokens tokens)
  | .error d => ⟨.error d, #[]⟩

end Assembly

/-- The program of a text. -/
def assemble (source : String) : Except Diagnostic Program := (Assembly.ofSource source).result

end QuadAsm
