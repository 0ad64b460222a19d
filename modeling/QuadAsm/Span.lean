/-! Places in a source text.

A span is a half-open interval of byte offsets, counted in the text's UTF-8 form.
The interval `[0, 0)` doubles as the mark of something that was never written
down in a text, such as an instruction recorded by a program. -/
namespace QuadAsm

/-- The bytes from `start` up to, not including, `stop`. -/
structure Span where
  start : Nat
  stop : Nat
  deriving DecidableEq, Repr, Inhabited

namespace Span

/-- The span of what has no place in a text. -/
def empty : Span := ⟨0, 0⟩

/-- The least span that holds both. -/
def cover (a b : Span) : Span := ⟨min a.start b.start, max a.stop b.stop⟩

@[simp] theorem cover_start (a b : Span) : (a.cover b).start = min a.start b.start := rfl

@[simp] theorem cover_stop (a b : Span) : (a.cover b).stop = max a.stop b.stop := rfl

end Span

end QuadAsm
