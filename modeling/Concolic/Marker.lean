import Concolic.Fault

/-
  The marker that tells whether the inputs an executor left are real.
-/

namespace Concolic

/-- Are the inputs the program under test's own, or made up on the way? -/
inductive InputKind where
  | real
  | synthetic
  deriving DecidableEq, Repr

/-- The kind that a marker's text stands for. -/
def InputKind.ofText (text : String) : InputKind :=
  if text.toList.filter (· ≠ '\n') = ['f', 'a', 'l', 's', 'e'] then synthetic else real

/-- What reading the marker gave. -/
inductive Marker where
  | present (kind : InputKind)
  | absent
  | unreadable (fault : Fault)
  deriving DecidableEq, Repr

/-- The kind that a marker stands for; inputs are real unless it says otherwise. -/
def Marker.kind : Marker → InputKind
  | present k => k
  | absent => .real
  | unreadable _ => .real

end Concolic
