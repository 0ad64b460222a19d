import QuadAsm.Fault

/-! A fault together with its place.

A place is attached once: `locate` keeps the place a diagnostic has, and takes the
empty span, which is nowhere, for no place at all. `Fault.at` states a place
whatever it is. -/
namespace QuadAsm

structure Diagnostic where
  fault : Fault
  span? : Option Span := none
  deriving DecidableEq, Repr

/-- The fault with no known place. -/
def Fault.unplaced (fault : Fault) : Diagnostic := ⟨fault, none⟩

/-- The fault at this place, be it the empty span. -/
def Fault.at (fault : Fault) (span : Span) : Diagnostic := ⟨fault, some span⟩

namespace Diagnostic

def kind (d : Diagnostic) : Fault.Kind := d.fault.kind

def message (d : Diagnostic) : String := d.fault.message

/-- One line: the kind, then the message. -/
def text (d : Diagnostic) : String := s!"{d.kind.text}: {d.message}"

/-- The diagnostic with a place, unless it has one or the place is nowhere. -/
def locate (d : Diagnostic) (span : Span) : Diagnostic :=
  match d.span? with
  | some _ => d
  | none => if span = .empty then d else { d with span? := some span }

theorem locate_empty (d : Diagnostic) : d.locate .empty = d := by
  obtain ⟨fault, _ | span⟩ := d <;> rfl

theorem locate_unplaced (fault : Fault) {span : Span} (h : span ≠ .empty) :
    fault.unplaced.locate span = fault.at span := by
  simp [locate, Fault.unplaced, Fault.at, h]

@[simp] theorem fault_locate (d : Diagnostic) (span : Span) : (d.locate span).fault = d.fault := by
  unfold locate
  split
  · rfl
  · split <;> rfl

end Diagnostic

end QuadAsm
